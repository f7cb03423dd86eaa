import XamlBinary.File.Basic
import XamlBinary.Json.Basic
import XamlBinary.Metadata.Lookup
import XamlBinary.Number.Text
import XamlBinary.Text.Hex

/-!
Files as JSON, with every reference replaced by the name it resolves to.
-/

namespace XamlBinary

namespace Json

def list {α : Type} (render : α → Json) (items : List α) : Json := .arr (items.map render)

def tokens (tokens : List Token) : Json := list (fun t => .ofUInt32 t.offset) tokens

end Json

namespace Metadata

def renderString (m : Metadata) (id : StringId) : Json := .ofString? (m.string? id)

def renderOptional (m : Metadata) : Option StringId → Json
  | some id => m.renderString id
  | none => .null

def renderAssembly (m : Metadata) (entry : Assembly) : Json :=
  .obj [("kind", .str entry.kind.name), ("name", m.renderString entry.name)]

def renderTypeNamespace (m : Metadata) (entry : TypeNamespace) : Json :=
  .obj [("assembly", .ofUInt32 entry.assembly), ("name", m.renderString entry.name)]

def renderType (m : Metadata) (entry : TypeEntry) : Json :=
  .obj [
    ("flags", .ofUInt32 entry.flags.bits),
    ("namespace", .ofUInt32 entry.typeNamespace),
    ("name", m.renderString entry.name)]

def renderPropertyEntry (m : Metadata) (entry : PropertyEntry) : Json :=
  .obj [
    ("flags", .ofUInt32 entry.flags.bits),
    ("declaringType", .ofUInt32 entry.declaringType),
    ("name", m.renderString entry.name)]

def render (m : Metadata) : Json :=
  .obj [
    ("strings", Json.list .str m.strings.toList),
    ("assemblies", Json.list m.renderAssembly m.assemblies.toList),
    ("typeNamespaces", Json.list m.renderTypeNamespace m.typeNamespaces.toList),
    ("types", Json.list m.renderType m.types.toList),
    ("properties", Json.list m.renderPropertyEntry m.properties.toList),
    ("xmlNamespaces", Json.list m.renderString m.xmlNamespaces.toList)]

def renderProperty (m : Metadata) (property : Ref .property) : Json :=
  .str (m.qualifiedProperty property)

def renderGridLength (unit : GridUnit) (value : Single) : Json :=
  match unit with
  | .auto => .str "Auto"
  | .pixel => .real value
  | .star => .str (value.plainText ++ "*")

def renderThickness (t : Thickness) : Json :=
  .arr [.real t.left, .real t.top, .real t.right, .real t.bottom]

/-- The value of a literal, without its type. -/
def renderValue (m : Metadata) : Constant → Json
  | .enumeration _ value => .ofUInt32 value
  | .nullString => .null
  | .bool value => .bool value
  | .color argb => .str ("#" ++ Hex.upper 8 argb.toNat)
  | .float value => .real value
  | .gridLength unit value => renderGridLength unit value
  | .sharedString id => m.renderString id
  | .signed value => .int value.toInt
  | .thickness value => renderThickness value
  | .uniqueString text => .str text

def renderConstant (m : Metadata) (value : Constant) : Json :=
  .obj [("type", .str (m.constantTypeName value)), ("value", m.renderValue value)]

def renderGroup (m : Metadata) (group : VisualStateGroup) : Json :=
  .obj [
    ("name", m.renderString group.name),
    ("token", .ofUInt32 group.token.offset),
    ("hasDynamicTimelines", .bool group.hasDynamicTimelines)]

def renderStoryboard : Option Token → Json
  | some token => .ofUInt32 token.offset
  | none => .null

def renderState (m : Metadata) (state : VisualState) : Json :=
  .obj [
    ("name", m.renderString state.name),
    ("group", .ofUInt32 state.group),
    ("storyboardToken", renderStoryboard state.storyboard),
    ("propertySetterTokens", .tokens state.propertySetters),
    ("stateTriggerValues", Json.list (Json.list fun n => .int n.toInt) state.triggerValues),
    ("stateTriggerCollectionTokens", .tokens state.triggerCollections),
    ("extensibleStateTriggerTokens", .tokens state.extensibleTriggers),
    ("staticResourceTriggerTokens", .tokens state.staticResourceTriggers)]

def renderTransition (m : Metadata) (transition : VisualTransition) : Json :=
  .obj [
    ("from", m.renderOptional transition.source),
    ("to", m.renderOptional transition.target),
    ("token", .ofUInt32 transition.token.offset)]

def renderKeyedToken (m : Metadata) (entry : KeyedToken) : Json :=
  .obj [("key", m.renderString entry.key), ("token", .ofUInt32 entry.token.offset)]

def renderSetterValue (m : Metadata) : SetterValue → Json
  | .constant value => .obj [("constant", m.renderConstant value)]
  | .object token => .obj [("objectToken", .ofUInt32 token.offset)]
  | .staticResource key => .obj [("staticResource", m.renderString key)]
  | .themeResource key => .obj [("themeResource", m.renderString key)]

def renderSetter (m : Metadata) (setter : Setter) : Json :=
  .obj [
    ("property", m.renderProperty setter.property),
    ("value", m.renderSetterValue setter.value),
    ("isMutable", .bool setter.isMutable)]

def renderEagerProperty (m : Metadata) (entry : EagerProperty) : Json :=
  .obj [("property", m.renderProperty entry.property), ("value", m.renderConstant entry.value)]

/-- What custom runtime data says, without its family and version. -/
def renderRuntimeBody (m : Metadata) : RuntimeData → Json
  | .visualStateGroups data =>
      .obj [
        ("entireCollectionToken", .ofUInt32 data.collection.offset),
        ("groups", Json.list m.renderGroup data.groups),
        ("states", Json.list m.renderState data.states),
        ("transitions", Json.list m.renderTransition data.transitions),
        ("seenNameDirectives", Json.list m.renderString data.seenNames),
        ("unexpectedTokensDetected", .bool data.unexpectedTokens)]
  | .resourceDictionary data =>
      .obj [
        ("explicitKeys", Json.list m.renderKeyedToken data.explicitKeys),
        ("implicitKeys", Json.list m.renderKeyedToken data.implicitKeys),
        ("xNameKeys", Json.list m.renderString data.xNames),
        ("conditionallyDeclaredTokens", .tokens data.conditionalTokens)]
  | .style data => .obj [("setters", Json.list m.renderSetter data.setters)]
  | .deferredElement data =>
      .obj [
        ("name", m.renderString data.name),
        ("nonDeferredProperties", Json.list m.renderEagerProperty data.properties),
        ("realize", .bool data.realize),
        ("hasLoadBinding", .bool data.hasLoadBinding)]

def renderRuntimeData (m : Metadata) (data : RuntimeData) : Json :=
  .obj [
    ("family", .str data.layout.family.name),
    ("version", .int data.layout.version),
    ("data", m.renderRuntimeBody data)]

/-- The fields of a node beside its offset and kind. -/
def nodeFields (m : Metadata) : Node → List (String × Json)
  | .startObject type => [("objectType", .str (m.fullTypeName type))]
  | .startProperty property => [("property", m.renderProperty property)]
  | .text id => [("text", m.renderString id)]
  | .value value => [("value", m.renderConstant value)]
  | .namespaceDeclaration shortName xmlNamespace =>
      [("prefix", m.renderString shortName), ("namespace", .str (m.xmlNamespace xmlNamespace))]
  | .lineInfo lineDelta columnDelta =>
      [("lineDelta", .int lineDelta.toInt), ("columnDelta", .int columnDelta.toInt)]
  | .lineInfoAbsolute line column => [("line", .ofUInt32 line), ("column", .ofUInt32 column)]
  | .runtimeData data substream =>
      [("customRuntimeData", m.renderRuntimeData data), ("substream", .ofUInt32 substream)]
  | .endObject | .endProperty | .endOfAttributes | .endOfStream => []

def renderNode (m : Metadata) (placed : PlacedNode) : Json :=
  .obj (("offset", .ofUInt32 placed.offset) :: ("node", .str placed.node.kind.name) ::
    m.nodeFields placed.node)

def renderLine (entry : LineEntry) : Json :=
  .obj [
    ("nodeOffset", .ofUInt32 entry.nodeOffset),
    ("line", .ofUInt32 entry.line),
    ("column", .ofUInt32 entry.column)]

def renderSubstream (m : Metadata) (s : Substream) : Json :=
  .obj [
    ("nodes", Json.list m.renderNode s.nodes),
    ("lineInfo", Json.list renderLine s.lines),
    ("nodestreamOffset", .ofUInt32 s.entry.nodeOffset),
    ("linestreamOffset", .ofUInt32 s.entry.lineOffset)]

end Metadata

namespace Header

def renderVersion : Option Version → Json
  | some version => .obj [("major", .ofUInt32 version.major), ("minor", .ofUInt32 version.minor)]
  | none => .null

def render (header : Header) : Json :=
  .obj [
    ("metadataSize", .ofUInt32 header.metadataSize),
    ("nodestreamSize", .ofUInt32 header.nodeStreamSize),
    ("version", renderVersion header.version)]

end Header

namespace File

/-- The file as JSON. -/
def render (file : File) : Json :=
  .obj [
    ("header", file.header.render),
    ("metadata", file.metadata.render),
    ("substreams", Json.list file.metadata.renderSubstream file.substreams)]

end File

end XamlBinary
