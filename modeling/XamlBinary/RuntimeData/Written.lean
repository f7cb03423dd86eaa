import XamlBinary.Constant.Written
import XamlBinary.RuntimeData.Basic

/-!
How custom runtime data is written: the number of its layout, then the parts
that the layout has.
-/

namespace XamlBinary

def Token.written (t : Token) : Written := .natural t.offset

def VisualStateGroup.written (version : Nat) (g : VisualStateGroup) : Written :=
  g.name.written ++ g.token.written ++ .since (4 ≤ version) (.bool g.hasDynamicTimelines)

/-- A token that can be missing, behind a byte that says whether it is there. -/
def Token.optional : Option Token → Written
  | none => .bool false
  | some t => .bool true ++ t.written

def VisualState.written (version : Nat) (s : VisualState) : Written :=
  s.name.written ++ .natural s.group ++ Token.optional s.storyboard ++
  .since (2 ≤ version) (.list Token.written s.propertySetters) ++
  .since (3 ≤ version) (.list (.list .varint) s.triggerValues) ++
  .since (3 ≤ version) (.list Token.written s.triggerCollections) ++
  .since (4 ≤ version) (.list Token.written s.extensibleTriggers) ++
  .since (5 ≤ version) (.list Token.written s.staticResourceTriggers)

def VisualTransition.written (t : VisualTransition) : Written :=
  StringId.optional t.source ++ StringId.optional t.target ++ t.token.written

def VisualStateGroups.written (d : VisualStateGroups) : Written :=
  d.collection.written ++
  .list (VisualStateGroup.written d.version) d.groups ++
  .list (VisualState.written d.version) d.states ++
  .since (2 ≤ d.version) (.list VisualTransition.written d.transitions) ++
  .list StringId.written d.seenNames ++
  .since (3 ≤ d.version) (.bool d.unexpectedTokens)

def KeyedToken.written (k : KeyedToken) : Written := k.key.written ++ k.token.written

def ResourceDictionary.written (d : ResourceDictionary) : Written :=
  .list KeyedToken.written d.explicitKeys ++
  .list KeyedToken.written d.implicitKeys ++
  .since (2 ≤ d.version) (.list StringId.written d.xNames) ++
  .since (3 ≤ d.version) (.list Token.written d.conditionalTokens)

/-- The kind of a value, then the value. -/
def SetterValue.written : SetterValue → Written
  | constant value => .byte 0 ++ value.written
  | object token => .byte 1 ++ token.written
  | staticResource key => .byte 2 ++ key.written
  | themeResource key => .byte 3 ++ key.written

def Setter.written (version : Nat) (s : Setter) : Written :=
  s.property.written ++ s.value.written ++ .since (2 ≤ version) (.bool s.isMutable)

def Style.written (d : Style) : Written := .list (Setter.written d.version) d.setters

def EagerProperty.written (p : EagerProperty) : Written := p.property.written ++ p.value.written

def DeferredElement.written (d : DeferredElement) : Written :=
  d.name.written ++
  .list EagerProperty.written d.properties ++
  .since (2 ≤ d.version) (.bool d.realize) ++
  .since (3 ≤ d.version) (.bool d.hasLoadBinding)

namespace RuntimeData

/-- What follows the number of the layout. -/
def body : RuntimeData → Written
  | visualStateGroups data => data.written
  | resourceDictionary data => data.written
  | style data => data.written
  | deferredElement data => data.written

def written (d : RuntimeData) : Written := .varint d.layout.number ++ d.body

end RuntimeData

end XamlBinary
