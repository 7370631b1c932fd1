import ProtoCatalog.Schema.Field

/-!
# The fields of the standard message types

The fields that the standard types declare themselves.
-/

namespace ProtoCatalog

open FieldKind

/-- The fields that a standard type declares, by ascending number. -/
def MessageType.standardFields : MessageType → List FieldSpec
  | .fileDescriptorSet =>
    [.many 1 "file" (.message .fileDescriptor)]
  | .fileDescriptor =>
    [.one 1 "name" .string, .one 2 "package" .string, .many 3 "dependency" .string,
     .many 4 "message_type" (.message .messageDescriptor),
     .many 5 "enum_type" (.message .enumDescriptor),
     .many 6 "service" (.message .serviceDescriptor),
     .many 7 "extension" (.message .fieldDescriptor), .one 8 "options" (.message .fileOptions),
     .one 9 "source_code_info" (.message .sourceCodeInfo), .many 10 "public_dependency" .int32,
     .many 11 "weak_dependency" .int32, .one 12 "syntax" .string,
     .one 14 "edition" (.enumeration .edition), .many 15 "option_dependency" .string]
  | .messageDescriptor =>
    [.one 1 "name" .string, .many 2 "field" (.message .fieldDescriptor),
     .many 3 "nested_type" (.message .messageDescriptor),
     .many 4 "enum_type" (.message .enumDescriptor),
     .many 5 "extension_range" (.message .extensionRange),
     .many 6 "extension" (.message .fieldDescriptor), .one 7 "options" (.message .messageOptions),
     .many 8 "oneof_decl" (.message .oneofDescriptor),
     .many 9 "reserved_range" (.message .reservedRange), .many 10 "reserved_name" .string,
     .one 11 "visibility" (.enumeration .symbolVisibility)]
  | .extensionRange =>
    [.one 1 "start" .int32, .one 2 "end" .int32,
     .one 3 "options" (.message .extensionRangeOptions)]
  | .reservedRange =>
    [.one 1 "start" .int32, .one 2 "end" .int32]
  | .extensionRangeOptions =>
    [.many 2 "declaration" (.message .extensionDeclaration),
     .one 3 "verification" (.enumeration .verificationState),
     .one 50 "features" (.message .featureSet),
     .many 999 "uninterpreted_option" (.message .uninterpretedOption)]
  | .extensionDeclaration =>
    [.one 1 "number" .int32, .one 2 "full_name" .string, .one 3 "type" .string,
     .one 5 "reserved" .bool, .one 6 "repeated" .bool]
  | .fieldDescriptor =>
    [.one 1 "name" .string, .one 2 "extendee" .string, .one 3 "number" .int32,
     .one 4 "label" (.enumeration .fieldLabel), .one 5 "type" (.enumeration .fieldType),
     .one 6 "type_name" .string, .one 7 "default_value" .string,
     .one 8 "options" (.message .fieldOptions), .one 9 "oneof_index" .int32,
     .one 10 "json_name" .string, .one 17 "proto3_optional" .bool]
  | .oneofDescriptor =>
    [.one 1 "name" .string, .one 2 "options" (.message .oneofOptions)]
  | .enumDescriptor =>
    [.one 1 "name" .string, .many 2 "value" (.message .enumValueDescriptor),
     .one 3 "options" (.message .enumOptions),
     .many 4 "reserved_range" (.message .enumReservedRange), .many 5 "reserved_name" .string,
     .one 6 "visibility" (.enumeration .symbolVisibility)]
  | .enumReservedRange =>
    [.one 1 "start" .int32, .one 2 "end" .int32]
  | .enumValueDescriptor =>
    [.one 1 "name" .string, .one 2 "number" .int32, .one 3 "options" (.message .enumValueOptions)]
  | .serviceDescriptor =>
    [.one 1 "name" .string, .many 2 "method" (.message .methodDescriptor),
     .one 3 "options" (.message .serviceOptions)]
  | .methodDescriptor =>
    [.one 1 "name" .string, .one 2 "input_type" .string, .one 3 "output_type" .string,
     .one 4 "options" (.message .methodOptions), .one 5 "client_streaming" .bool,
     .one 6 "server_streaming" .bool]
  | .fileOptions =>
    [.one 1 "java_package" .string, .one 8 "java_outer_classname" .string,
     .one 9 "optimize_for" (.enumeration .optimizeMode), .one 10 "java_multiple_files" .bool,
     .one 11 "go_package" .string, .one 16 "cc_generic_services" .bool,
     .one 17 "java_generic_services" .bool, .one 18 "py_generic_services" .bool,
     .one 20 "java_generate_equals_and_hash" .bool, .one 23 "deprecated" .bool,
     .one 27 "java_string_check_utf8" .bool, .one 31 "cc_enable_arenas" .bool,
     .one 36 "objc_class_prefix" .string, .one 37 "csharp_namespace" .string,
     .one 39 "swift_prefix" .string, .one 40 "php_class_prefix" .string,
     .one 41 "php_namespace" .string, .one 44 "php_metadata_namespace" .string,
     .one 45 "ruby_package" .string, .one 50 "features" (.message .featureSet),
     .many 999 "uninterpreted_option" (.message .uninterpretedOption)]
  | .messageOptions =>
    [.one 1 "message_set_wire_format" .bool, .one 2 "no_standard_descriptor_accessor" .bool,
     .one 3 "deprecated" .bool, .one 7 "map_entry" .bool,
     .one 11 "deprecated_legacy_json_field_conflicts" .bool,
     .one 12 "features" (.message .featureSet),
     .many 999 "uninterpreted_option" (.message .uninterpretedOption)]
  | .fieldOptions =>
    [.one 1 "ctype" (.enumeration .stringType), .one 2 "packed" .bool, .one 3 "deprecated" .bool,
     .one 5 "lazy" .bool, .one 6 "jstype" (.enumeration .integerType), .one 10 "weak" .bool,
     .one 15 "unverified_lazy" .bool, .one 16 "debug_redact" .bool,
     .one 17 "retention" (.enumeration .optionRetention),
     .many 19 "targets" (.enumeration .optionTargetType),
     .many 20 "edition_defaults" (.message .editionDefault),
     .one 21 "features" (.message .featureSet),
     .one 22 "feature_support" (.message .featureSupport),
     .many 999 "uninterpreted_option" (.message .uninterpretedOption)]
  | .editionDefault =>
    [.one 2 "value" .string, .one 3 "edition" (.enumeration .edition)]
  | .featureSupport =>
    [.one 1 "edition_introduced" (.enumeration .edition),
     .one 2 "edition_deprecated" (.enumeration .edition), .one 3 "deprecation_warning" .string,
     .one 4 "edition_removed" (.enumeration .edition), .one 5 "removal_error" .string]
  | .oneofOptions =>
    [.one 1 "features" (.message .featureSet),
     .many 999 "uninterpreted_option" (.message .uninterpretedOption)]
  | .enumOptions =>
    [.one 2 "allow_alias" .bool, .one 3 "deprecated" .bool,
     .one 6 "deprecated_legacy_json_field_conflicts" .bool,
     .one 7 "features" (.message .featureSet),
     .many 999 "uninterpreted_option" (.message .uninterpretedOption)]
  | .enumValueOptions =>
    [.one 1 "deprecated" .bool, .one 2 "features" (.message .featureSet),
     .one 3 "debug_redact" .bool, .one 4 "feature_support" (.message .featureSupport),
     .many 999 "uninterpreted_option" (.message .uninterpretedOption)]
  | .serviceOptions =>
    [.one 33 "deprecated" .bool, .one 34 "features" (.message .featureSet),
     .many 999 "uninterpreted_option" (.message .uninterpretedOption)]
  | .methodOptions =>
    [.one 33 "deprecated" .bool, .one 34 "idempotency_level" (.enumeration .idempotencyLevel),
     .one 35 "features" (.message .featureSet),
     .many 999 "uninterpreted_option" (.message .uninterpretedOption)]
  | .uninterpretedOption =>
    [.many 2 "name" (.message .optionNamePart), .one 3 "identifier_value" .string,
     .one 4 "positive_int_value" .uint64, .one 5 "negative_int_value" .int64,
     .one 6 "double_value" .double, .one 7 "string_value" .bytes,
     .one 8 "aggregate_value" .string]
  | .optionNamePart =>
    [.one 1 "name_part" .string, .one 2 "is_extension" .bool]
  | .featureSet =>
    [.one 1 "field_presence" (.enumeration .fieldPresence),
     .one 2 "enum_type" (.enumeration .enumType),
     .one 3 "repeated_field_encoding" (.enumeration .repeatedFieldEncoding),
     .one 4 "utf8_validation" (.enumeration .utf8Validation),
     .one 5 "message_encoding" (.enumeration .messageEncoding),
     .one 6 "json_format" (.enumeration .jsonFormat),
     .one 7 "enforce_naming_style" (.enumeration .enforceNamingStyle),
     .one 8 "default_symbol_visibility" (.enumeration .defaultSymbolVisibility),
     .one 9 "enforce_proto_limits" (.enumeration .enforceProtoLimits)]
  | .visibilityFeature => []
  | .limitsFeature => []
  | .featureSetDefaults =>
    [.many 1 "defaults" (.message .editionFeatures),
     .one 4 "minimum_edition" (.enumeration .edition),
     .one 5 "maximum_edition" (.enumeration .edition)]
  | .editionFeatures =>
    [.one 3 "edition" (.enumeration .edition),
     .one 4 "overridable_features" (.message .featureSet),
     .one 5 "fixed_features" (.message .featureSet)]
  | .sourceCodeInfo =>
    [.many 1 "location" (.message .sourceLocation)]
  | .sourceLocation =>
    [.many 1 "path" .int32, .many 2 "span" .int32, .one 3 "leading_comments" .string,
     .one 4 "trailing_comments" .string, .many 6 "leading_detached_comments" .string]
  | .generatedCodeInfo =>
    [.many 1 "annotation" (.message .generatedSpan)]
  | .generatedSpan =>
    [.many 1 "path" .int32, .one 2 "source_file" .string, .one 3 "begin" .int32,
     .one 4 "end" .int32, .one 5 "semantic" (.enumeration .annotationSemantic)]
  | .compilerVersion =>
    [.one 1 "major" .int32, .one 2 "minor" .int32, .one 3 "patch" .int32,
     .one 4 "suffix" .string]
  | .codeGeneratorRequest =>
    [.many 1 "file_to_generate" .string, .one 2 "parameter" .string,
     .one 3 "compiler_version" (.message .compilerVersion),
     .many 15 "proto_file" (.message .fileDescriptor),
     .many 17 "source_file_descriptors" (.message .fileDescriptor)]
  | .codeGeneratorResponse =>
    [.one 1 "error" .string, .one 2 "supported_features" .uint64,
     .one 3 "minimum_edition" .int32, .one 4 "maximum_edition" .int32,
     .many 15 "file" (.message .generatedFile)]
  | .generatedFile =>
    [.one 1 "name" .string, .one 2 "insertion_point" .string, .one 15 "content" .string,
     .one 16 "generated_code_info" (.message .generatedCodeInfo)]
  | .httpRule =>
    [.plain 1 "selector" .string, .member "pattern" 2 "get" .string,
     .member "pattern" 3 "put" .string, .member "pattern" 4 "post" .string,
     .member "pattern" 5 "delete" .string, .member "pattern" 6 "patch" .string,
     .plain 7 "body" .string, .member "pattern" 8 "custom" (.message .customHttpPattern),
     .many 11 "additional_bindings" (.message .httpRule), .plain 12 "response_body" .string]
  | .customHttpPattern => [.plain 1 "kind" .string, .plain 2 "path" .string]
  | .any => [.plain 1 "type_url" .string, .plain 2 "value" .bytes]
  | .value =>
    [.member "kind" 1 "null_value" (.enumeration .nullValue),
     .member "kind" 2 "number_value" .double, .member "kind" 3 "string_value" .string,
     .member "kind" 4 "bool_value" .bool,
     .member "kind" 5 "struct_value" (.message .struct),
     .member "kind" 6 "list_value" (.message .listValue)]
  | .struct => [.map 1 "fields" .structEntry]
  | .structEntry => [.plain 1 "key" .string, .one 2 "value" (.message .value)]
  | .listValue => [.many 1 "values" (.message .value)]
  | .declared _ => []

end ProtoCatalog
