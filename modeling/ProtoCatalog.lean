import ProtoCatalog.Catalog.Listing
import ProtoCatalog.Catalog.Note
import ProtoCatalog.Doc.OptionIndex
import ProtoCatalog.Json.Reader
import ProtoCatalog.Loading.Compile
import ProtoCatalog.Proofs.Comments
import ProtoCatalog.Proofs.Concatenation
import ProtoCatalog.Proofs.Copies
import ProtoCatalog.Proofs.Descriptions
import ProtoCatalog.Proofs.FileOrder
import ProtoCatalog.Proofs.FullNames
import ProtoCatalog.Proofs.Gathering
import ProtoCatalog.Proofs.InPlace
import ProtoCatalog.Proofs.Joining
import ProtoCatalog.Proofs.JsonText
import ProtoCatalog.Proofs.Links
import ProtoCatalog.Proofs.Namesakes
import ProtoCatalog.Proofs.OneofIndices
import ProtoCatalog.Proofs.Oneofs
import ProtoCatalog.Proofs.OptionIndexes
import ProtoCatalog.Proofs.Payloads
import ProtoCatalog.Proofs.Precedence
import ProtoCatalog.Proofs.Preorder
import ProtoCatalog.Proofs.Presence
import ProtoCatalog.Proofs.References
import ProtoCatalog.Proofs.Selecting
import ProtoCatalog.Proofs.Typing
