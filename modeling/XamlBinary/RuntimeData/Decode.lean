import XamlBinary.Constant.Decode
import XamlBinary.RuntimeData.Basic

/-!
Decoding of custom runtime data.  The number of the layout comes first; the
version that goes with it decides which parts there are.
-/

namespace XamlBinary.Decoder

open Reader

def token (what : String) : Decoder Token := Token.mk <$> natural what

def tokens (what : String) : Decoder (List Token) := list what (token what)

def strings (scope : Scope) (what : String) : Decoder (List StringId) :=
  list what (stringId scope what)

def visualStateGroup (scope : Scope) (version : Nat) : Decoder VisualStateGroup := do
  let name ← stringId scope "visual state group name"
  let token ← token "visual state group token"
  let hasDynamicTimelines ← since (4 ≤ version) false (bool "has dynamic timelines")
  pure { name, token, hasDynamicTimelines }

/-- The index of one of `count` groups. -/
def groupIndex (count : Nat) : Decoder UInt32 := do
  let index ← natural "visual state group index"
  if index.toNat < count then pure index
  else indexOutOfRange .visualStateGroups index.toNat count

def storyboard : Decoder (Option Token) := do
  if ← bool "has storyboard" then some <$> token "storyboard token" else pure none

def visualState (scope : Scope) (version groups : Nat) : Decoder VisualState := do
  let name ← stringId scope "visual state name"
  let group ← groupIndex groups
  let storyboard ← storyboard
  let propertySetters ← since (2 ≤ version) [] (tokens "property setter tokens")
  let triggerValues ← since (3 ≤ version) [] <|
    list "state triggers" (list "state trigger values" (varint "state trigger value"))
  let triggerCollections ← since (3 ≤ version) [] (tokens "state trigger collection tokens")
  let extensibleTriggers ← since (4 ≤ version) [] (tokens "extensible state trigger tokens")
  let staticResourceTriggers ←
    since (5 ≤ version) [] (tokens "static resource trigger tokens")
  pure {
    name, group, storyboard, propertySetters, triggerValues, triggerCollections,
    extensibleTriggers, staticResourceTriggers }

def visualTransition (scope : Scope) : Decoder VisualTransition := do
  let source ← stringId? scope "transition from"
  let target ← stringId? scope "transition to"
  let token ← token "transition token"
  pure { source, target, token }

def visualStateGroups (scope : Scope) (version : Nat) : Decoder VisualStateGroups := do
  let collection ← token "visual state collection token"
  let groups ← list "visual state groups" (visualStateGroup scope version)
  let states ← list "visual states" (visualState scope version groups.length)
  let transitions ← since (2 ≤ version) [] (list "visual transitions" (visualTransition scope))
  let seenNames ← strings scope "seen name directives"
  let unexpectedTokens ← since (3 ≤ version) false (bool "unexpected tokens detected")
  pure { version, collection, groups, states, transitions, seenNames, unexpectedTokens }

def keyedToken (scope : Scope) : Decoder KeyedToken := do
  let key ← stringId scope "resource key"
  let token ← token "resource token"
  pure { key, token }

def resourceDictionary (scope : Scope) (version : Nat) : Decoder ResourceDictionary := do
  let explicitKeys ← list "explicit resource keys" (keyedToken scope)
  let implicitKeys ← list "implicit resource keys" (keyedToken scope)
  let xNames ← since (2 ≤ version) [] (strings scope "x:Name resource keys")
  let conditionalTokens ← since (3 ≤ version) [] (tokens "conditionally declared resources")
  pure { version, explicitKeys, implicitKeys, xNames, conditionalTokens }

def setterValue (scope : Scope) : Decoder SetterValue := do
  let start ← position
  let kind ← byte "setter value kind"
  if kind = 0 then .constant <$> constant scope
  else if kind = 1 then .object <$> token "setter object token"
  else if kind = 2 then .staticResource <$> stringId scope "StaticResource key"
  else if kind = 3 then .themeResource <$> stringId scope "ThemeResource key"
  else malformed start (.unknownSetterValue kind)

def setter (scope : Scope) (version : Nat) : Decoder Setter := do
  let property ← ref scope .property "setter property"
  let value ← setterValue scope
  let isMutable ← since (2 ≤ version) false (bool "setter is mutable")
  pure { property, value, isMutable }

def style (scope : Scope) (version : Nat) : Decoder Style := do
  let setters ← list "style setters" (setter scope version)
  pure { version, setters }

def eagerProperty (scope : Scope) : Decoder EagerProperty := do
  let property ← ref scope .property "non-deferred property"
  let value ← constant scope
  pure { property, value }

def deferredElement (scope : Scope) (version : Nat) : Decoder DeferredElement := do
  let name ← stringId scope "deferred element name"
  let properties ← list "non-deferred properties" (eagerProperty scope)
  let realize ← since (2 ≤ version) false (bool "realize")
  let hasLoadBinding ← since (3 ≤ version) false (bool "has load binding")
  pure { version, name, properties, realize, hasLoadBinding }

/-- The part of custom runtime data that follows the number of its layout. -/
def runtimeDataBody (scope : Scope) (layout : RuntimeLayout) : Decoder RuntimeData :=
  match layout.family with
  | .visualStateGroups => .visualStateGroups <$> visualStateGroups scope layout.version
  | .resourceDictionary => .resourceDictionary <$> resourceDictionary scope layout.version
  | .style => .style <$> style scope layout.version
  | .deferredElement => .deferredElement <$> deferredElement scope layout.version

def runtimeData (scope : Scope) : Decoder RuntimeData := do
  let start ← position
  let number ← varint "custom runtime data type"
  match RuntimeLayout.ofNumber? number with
  | some layout => runtimeDataBody scope layout
  | none => malformed start (.unknownRuntimeData number)

end XamlBinary.Decoder
