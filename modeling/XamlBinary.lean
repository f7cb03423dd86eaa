import XamlBinary.Dump.FileTree
import XamlBinary.File.References
import XamlBinary.File.Written
import XamlBinary.Main
import XamlBinary.Proofs.Cursor.Text
import XamlBinary.Proofs.Cursor.Varint
import XamlBinary.Proofs.Dump.Exclusive
import XamlBinary.Proofs.File.Canonical
import XamlBinary.Proofs.File.Checked
import XamlBinary.Proofs.File.Detect
import XamlBinary.Proofs.File.Faults
import XamlBinary.Proofs.File.Limit
import XamlBinary.Proofs.File.Rendering
import XamlBinary.Proofs.File.Size
import XamlBinary.Proofs.File.Versioned
import XamlBinary.Proofs.File.Warnings
import XamlBinary.Proofs.Metadata.Classified
import XamlBinary.Proofs.Metadata.Search
import XamlBinary.Proofs.Node.Lines
import XamlBinary.Proofs.Node.Negative
import XamlBinary.Proofs.Node.Segments
import XamlBinary.Proofs.RuntimeData.Upgrade
import XamlBinary.Proofs.Session.Repeat
import XamlBinary.Proofs.Substream.Growth
import XamlBinary.Session
