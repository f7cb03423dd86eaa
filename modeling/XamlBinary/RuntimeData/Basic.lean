import XamlBinary.Constant.Basic

/-!
Custom runtime data: what a file stores beside the nodes of visual state
groups, resource dictionaries, styles and deferred elements.  Each family has
had several layouts.  All of them are decoded into one type per family, where
the parts that a layout lacks are empty or false.
-/

namespace XamlBinary

inductive RuntimeFamily where
  | visualStateGroups
  | resourceDictionary
  | style
  | deferredElement
deriving DecidableEq, Repr

def RuntimeFamily.name : RuntimeFamily → String
  | visualStateGroups => "VisualStateGroupCollection"
  | resourceDictionary => "ResourceDictionary"
  | style => "Style"
  | deferredElement => "DeferredElement"

/-- A family and the version of its layout, counted from one. -/
structure RuntimeLayout where
  family : RuntimeFamily
  version : Nat
deriving DecidableEq, Repr

namespace RuntimeLayout

/-- The number that stands for a layout in a file.  A pair that is no layout has none of these
numbers. -/
def number : RuntimeLayout → Int32
  | ⟨.visualStateGroups, 1⟩ => 0
  | ⟨.resourceDictionary, 1⟩ => 1
  | ⟨.style, 1⟩ => 2
  | ⟨.visualStateGroups, 2⟩ => 3
  | ⟨.deferredElement, 1⟩ => 4
  | ⟨.resourceDictionary, 2⟩ => 5
  | ⟨.visualStateGroups, 3⟩ => 6
  | ⟨.deferredElement, 2⟩ => 7
  | ⟨.style, 2⟩ => 8
  | ⟨.resourceDictionary, 3⟩ => 9
  | ⟨.visualStateGroups, 4⟩ => 10
  | ⟨.deferredElement, 3⟩ => 11
  | ⟨.visualStateGroups, 5⟩ => 12
  | _ => -1

/-- The layouts in the order in which they came to be, which is that of their numbers. -/
def all : List RuntimeLayout :=
  [⟨.visualStateGroups, 1⟩, ⟨.resourceDictionary, 1⟩, ⟨.style, 1⟩, ⟨.visualStateGroups, 2⟩,
    ⟨.deferredElement, 1⟩, ⟨.resourceDictionary, 2⟩, ⟨.visualStateGroups, 3⟩,
    ⟨.deferredElement, 2⟩, ⟨.style, 2⟩, ⟨.resourceDictionary, 3⟩, ⟨.visualStateGroups, 4⟩,
    ⟨.deferredElement, 3⟩, ⟨.visualStateGroups, 5⟩]

/-- The numbers of the layouts begin at zero, and none is left out. -/
theorem map_number_all : all.map number = [0, 1, 2, 3, 4, 5, 6, 7, 8, 9, 10, 11, 12] := by decide

/-- The layout of a number. -/
def ofNumber? (n : Int32) : Option RuntimeLayout := all.find? fun layout => layout.number = n

def name (layout : RuntimeLayout) : String := layout.family.name ++ s!"V{layout.version}"

end RuntimeLayout

/-- The place of a serialized object in a node-stream. -/
structure Token where
  offset : UInt32
deriving DecidableEq, Repr

structure VisualStateGroup where
  name : StringId
  token : Token
  /-- Since version 4. -/
  hasDynamicTimelines : Bool
deriving DecidableEq, Repr

structure VisualState where
  name : StringId
  /-- An index into the groups of the same collection. -/
  group : UInt32
  storyboard : Option Token
  /-- Since version 2. -/
  propertySetters : List Token
  /-- A list of values for each trigger, since version 3. -/
  triggerValues : List (List Int32)
  /-- Since version 3. -/
  triggerCollections : List Token
  /-- Since version 4. -/
  extensibleTriggers : List Token
  /-- Since version 5. -/
  staticResourceTriggers : List Token
deriving DecidableEq, Repr

structure VisualTransition where
  source : Option StringId
  target : Option StringId
  token : Token
deriving DecidableEq, Repr

structure VisualStateGroups where
  version : Nat
  collection : Token
  groups : List VisualStateGroup
  states : List VisualState
  /-- Since version 2. -/
  transitions : List VisualTransition
  seenNames : List StringId
  /-- Since version 3. -/
  unexpectedTokens : Bool
deriving DecidableEq, Repr

structure KeyedToken where
  key : StringId
  token : Token
deriving DecidableEq, Repr

structure ResourceDictionary where
  version : Nat
  explicitKeys : List KeyedToken
  /-- Styles and templates under the name of their target type. -/
  implicitKeys : List KeyedToken
  /-- Since version 2. -/
  xNames : List StringId
  /-- Since version 3. -/
  conditionalTokens : List Token
deriving DecidableEq, Repr

inductive SetterValue where
  | constant (value : Constant)
  /-- An object that is serialized in the node-stream. -/
  | object (token : Token)
  | staticResource (key : StringId)
  | themeResource (key : StringId)
deriving DecidableEq, BEq, Repr

structure Setter where
  property : Ref .property
  value : SetterValue
  /-- Since version 2. -/
  isMutable : Bool
deriving DecidableEq, BEq, Repr

structure Style where
  version : Nat
  setters : List Setter
deriving DecidableEq, BEq, Repr

/-- A property that is set when the element is created, before it is realized. -/
structure EagerProperty where
  property : Ref .property
  value : Constant
deriving DecidableEq, BEq, Repr

structure DeferredElement where
  version : Nat
  name : StringId
  properties : List EagerProperty
  /-- Since version 2. -/
  realize : Bool
  /-- Since version 3. -/
  hasLoadBinding : Bool
deriving DecidableEq, BEq, Repr

inductive RuntimeData where
  | visualStateGroups (data : VisualStateGroups)
  | resourceDictionary (data : ResourceDictionary)
  | style (data : Style)
  | deferredElement (data : DeferredElement)
deriving DecidableEq, BEq, Repr

/-- The layout that the data was read from. -/
def RuntimeData.layout : RuntimeData → RuntimeLayout
  | visualStateGroups data => ⟨.visualStateGroups, data.version⟩
  | resourceDictionary data => ⟨.resourceDictionary, data.version⟩
  | style data => ⟨.style, data.version⟩
  | deferredElement data => ⟨.deferredElement, data.version⟩

end XamlBinary
