/-!
# Message types

The standard message types, which are descriptors, their options messages and a few messages that
extensions hold, and the message types that others declare.
-/

namespace ProtoCatalog

/-- A message type.  One that is not a standard type has no JSON form of its own. -/
inductive MessageType where
  | fileDescriptorSet
  | fileDescriptor
  | messageDescriptor
  | extensionRange
  | reservedRange
  | extensionRangeOptions
  | extensionDeclaration
  | fieldDescriptor
  | oneofDescriptor
  | enumDescriptor
  | enumReservedRange
  | enumValueDescriptor
  | serviceDescriptor
  | methodDescriptor
  | fileOptions
  | messageOptions
  | fieldOptions
  | editionDefault
  | featureSupport
  | oneofOptions
  | enumOptions
  | enumValueOptions
  | serviceOptions
  | methodOptions
  | uninterpretedOption
  | optionNamePart
  | featureSet
  | visibilityFeature
  | limitsFeature
  | featureSetDefaults
  | editionFeatures
  | sourceCodeInfo
  | sourceLocation
  | generatedCodeInfo
  | generatedSpan
  | compilerVersion
  | codeGeneratorRequest
  | codeGeneratorResponse
  | generatedFile
  | httpRule
  | customHttpPattern
  | any
  | value
  | struct
  | structEntry
  | listValue
  | declared (fullName : String)
deriving DecidableEq, Repr

namespace MessageType

def fullName : MessageType → String
  | .fileDescriptorSet => "google.protobuf.FileDescriptorSet"
  | .fileDescriptor => "google.protobuf.FileDescriptorProto"
  | .messageDescriptor => "google.protobuf.DescriptorProto"
  | .extensionRange => "google.protobuf.DescriptorProto.ExtensionRange"
  | .reservedRange => "google.protobuf.DescriptorProto.ReservedRange"
  | .extensionRangeOptions => "google.protobuf.ExtensionRangeOptions"
  | .extensionDeclaration => "google.protobuf.ExtensionRangeOptions.Declaration"
  | .fieldDescriptor => "google.protobuf.FieldDescriptorProto"
  | .oneofDescriptor => "google.protobuf.OneofDescriptorProto"
  | .enumDescriptor => "google.protobuf.EnumDescriptorProto"
  | .enumReservedRange => "google.protobuf.EnumDescriptorProto.EnumReservedRange"
  | .enumValueDescriptor => "google.protobuf.EnumValueDescriptorProto"
  | .serviceDescriptor => "google.protobuf.ServiceDescriptorProto"
  | .methodDescriptor => "google.protobuf.MethodDescriptorProto"
  | .fileOptions => "google.protobuf.FileOptions"
  | .messageOptions => "google.protobuf.MessageOptions"
  | .fieldOptions => "google.protobuf.FieldOptions"
  | .editionDefault => "google.protobuf.FieldOptions.EditionDefault"
  | .featureSupport => "google.protobuf.FieldOptions.FeatureSupport"
  | .oneofOptions => "google.protobuf.OneofOptions"
  | .enumOptions => "google.protobuf.EnumOptions"
  | .enumValueOptions => "google.protobuf.EnumValueOptions"
  | .serviceOptions => "google.protobuf.ServiceOptions"
  | .methodOptions => "google.protobuf.MethodOptions"
  | .uninterpretedOption => "google.protobuf.UninterpretedOption"
  | .optionNamePart => "google.protobuf.UninterpretedOption.NamePart"
  | .featureSet => "google.protobuf.FeatureSet"
  | .visibilityFeature => "google.protobuf.FeatureSet.VisibilityFeature"
  | .limitsFeature => "google.protobuf.FeatureSet.ProtoLimitsFeature"
  | .featureSetDefaults => "google.protobuf.FeatureSetDefaults"
  | .editionFeatures => "google.protobuf.FeatureSetDefaults.FeatureSetEditionDefault"
  | .sourceCodeInfo => "google.protobuf.SourceCodeInfo"
  | .sourceLocation => "google.protobuf.SourceCodeInfo.Location"
  | .generatedCodeInfo => "google.protobuf.GeneratedCodeInfo"
  | .generatedSpan => "google.protobuf.GeneratedCodeInfo.Annotation"
  | .compilerVersion => "google.protobuf.compiler.Version"
  | .codeGeneratorRequest => "google.protobuf.compiler.CodeGeneratorRequest"
  | .codeGeneratorResponse => "google.protobuf.compiler.CodeGeneratorResponse"
  | .generatedFile => "google.protobuf.compiler.CodeGeneratorResponse.File"
  | .httpRule => "google.api.HttpRule"
  | .customHttpPattern => "google.api.CustomHttpPattern"
  | .any => "google.protobuf.Any"
  | .value => "google.protobuf.Value"
  | .struct => "google.protobuf.Struct"
  | .structEntry => "google.protobuf.Struct.FieldsEntry"
  | .listValue => "google.protobuf.ListValue"
  | .declared fullName => fullName

/-- The standard types. -/
def standard : List MessageType :=
  [.fileDescriptorSet, .fileDescriptor, .messageDescriptor, .extensionRange, .reservedRange,
   .extensionRangeOptions, .extensionDeclaration, .fieldDescriptor, .oneofDescriptor,
   .enumDescriptor, .enumReservedRange, .enumValueDescriptor, .serviceDescriptor,
   .methodDescriptor, .fileOptions, .messageOptions, .fieldOptions, .editionDefault,
   .featureSupport, .oneofOptions, .enumOptions, .enumValueOptions, .serviceOptions,
   .methodOptions, .uninterpretedOption, .optionNamePart, .featureSet, .visibilityFeature,
   .limitsFeature, .featureSetDefaults, .editionFeatures, .sourceCodeInfo, .sourceLocation,
   .generatedCodeInfo, .generatedSpan, .compilerVersion, .codeGeneratorRequest,
   .codeGeneratorResponse, .generatedFile, .httpRule, .customHttpPattern, .any, .value, .struct,
   .structEntry, .listValue]

theorem mem_standard (t : MessageType) : t ∈ standard ∨ ∃ fullName, t = .declared fullName := by
  cases t with
  | declared fullName => exact .inr ⟨fullName, rfl⟩
  | _ => exact .inl (by decide)

end MessageType
end ProtoCatalog
