/-!
The built-in registry: types, properties and XML namespaces that every file
may refer to by their index.  An entry's index is its place in its table.
-/

namespace XamlBinary

structure KnownType where
  namespaceName : String
  name : String
deriving DecidableEq, Repr

def KnownType.fullName (entry : KnownType) : String := entry.namespaceName ++ "." ++ entry.name

structure KnownProperty where
  /-- The index of the declaring type. -/
  declaringType : UInt16
  name : String
deriving DecidableEq, Repr

namespace Registry

private def xaml (name : String) : KnownType := ⟨"Microsoft.UI.Xaml", name⟩

private def controls (name : String) : KnownType := ⟨"Microsoft.UI.Xaml.Controls", name⟩

private def media (name : String) : KnownType := ⟨"Microsoft.UI.Xaml.Media", name⟩

private def animation (name : String) : KnownType := ⟨"Microsoft.UI.Xaml.Media.Animation", name⟩

private def data (name : String) : KnownType := ⟨"Microsoft.UI.Xaml.Data", name⟩

private def foundation (name : String) : KnownType := ⟨"Windows.Foundation", name⟩

private def ui (name : String) : KnownType := ⟨"Windows.UI", name⟩

def types : Array KnownType := #[
  foundation "Object",
  foundation "String",
  foundation "Boolean",
  foundation "Double",
  foundation "Int32",
  ui "Color",
  xaml "DependencyObject",
  xaml "UIElement",
  xaml "FrameworkElement",
  xaml "Application",
  xaml "ResourceDictionary",
  xaml "Style",
  xaml "Setter",
  xaml "SetterBaseCollection",
  xaml "DataTemplate",
  xaml "VisualStateManager",
  xaml "VisualStateGroup",
  xaml "VisualState",
  xaml "VisualTransition",
  xaml "StateTrigger",
  xaml "AdaptiveTrigger",
  xaml "Thickness",
  xaml "CornerRadius",
  xaml "GridLength",
  xaml "GridUnitType",
  xaml "Duration",
  xaml "Visibility",
  xaml "HorizontalAlignment",
  xaml "VerticalAlignment",
  xaml "TextWrapping",
  controls "Control",
  controls "ContentControl",
  controls "ControlTemplate",
  controls "Panel",
  controls "Grid",
  controls "StackPanel",
  controls "Canvas",
  controls "Border",
  controls "Button",
  controls "CheckBox",
  controls "TextBlock",
  controls "TextBox",
  controls "Image",
  controls "ContentPresenter",
  controls "ItemsControl",
  controls "ListView",
  controls "ScrollViewer",
  controls "Page",
  controls "UserControl",
  controls "Orientation",
  controls "ColumnDefinition",
  controls "RowDefinition",
  media "Brush",
  media "SolidColorBrush",
  media "FontFamily",
  media "Transform",
  animation "Storyboard",
  animation "DoubleAnimation",
  animation "ObjectAnimationUsingKeyFrames",
  animation "DiscreteObjectKeyFrame",
  data "Binding"]

def properties : Array KnownProperty := #[
  ⟨8, "Name"⟩,
  ⟨8, "Width"⟩,
  ⟨8, "Height"⟩,
  ⟨8, "Margin"⟩,
  ⟨8, "HorizontalAlignment"⟩,
  ⟨8, "VerticalAlignment"⟩,
  ⟨8, "Style"⟩,
  ⟨8, "Resources"⟩,
  ⟨7, "Visibility"⟩,
  ⟨7, "Opacity"⟩,
  ⟨30, "Template"⟩,
  ⟨30, "Background"⟩,
  ⟨30, "Foreground"⟩,
  ⟨30, "BorderBrush"⟩,
  ⟨30, "BorderThickness"⟩,
  ⟨30, "Padding"⟩,
  ⟨30, "FontSize"⟩,
  ⟨30, "FontFamily"⟩,
  ⟨31, "Content"⟩,
  ⟨33, "Children"⟩,
  ⟨33, "Background"⟩,
  ⟨34, "Row"⟩,
  ⟨34, "Column"⟩,
  ⟨34, "RowSpan"⟩,
  ⟨34, "ColumnSpan"⟩,
  ⟨34, "RowDefinitions"⟩,
  ⟨34, "ColumnDefinitions"⟩,
  ⟨35, "Orientation"⟩,
  ⟨40, "Text"⟩,
  ⟨40, "TextWrapping"⟩,
  ⟨40, "FontWeight"⟩,
  ⟨37, "Child"⟩,
  ⟨37, "CornerRadius"⟩,
  ⟨11, "TargetType"⟩,
  ⟨11, "Setters"⟩,
  ⟨11, "BasedOn"⟩,
  ⟨12, "Property"⟩,
  ⟨12, "Value"⟩,
  ⟨12, "Target"⟩,
  ⟨15, "VisualStateGroups"⟩,
  ⟨16, "States"⟩,
  ⟨16, "Transitions"⟩,
  ⟨17, "Storyboard"⟩,
  ⟨17, "Setters"⟩,
  ⟨17, "StateTriggers"⟩,
  ⟨20, "MinWindowWidth"⟩,
  ⟨20, "MinWindowHeight"⟩,
  ⟨56, "TargetName"⟩,
  ⟨56, "TargetProperty"⟩,
  ⟨50, "Width"⟩,
  ⟨51, "Height"⟩,
  ⟨53, "Color"⟩,
  ⟨32, "TargetType"⟩,
  ⟨60, "Path"⟩,
  ⟨10, "MergedDictionaries"⟩,
  ⟨10, "ThemeDictionaries"⟩]

def xmlNamespaces : Array String := #[
  "http://schemas.microsoft.com/winfx/2006/xaml/presentation",
  "http://schemas.microsoft.com/winfx/2006/xaml",
  "http://schemas.microsoft.com/expression/blend/2008",
  "http://schemas.openxmlformats.org/markup-compatibility/2006"]

def type? (index : UInt16) : Option KnownType := types[index.toNat]?

def property? (index : UInt16) : Option KnownProperty := properties[index.toNat]?

def xmlNamespace? (index : UInt16) : Option String := xmlNamespaces[index.toNat]?

/-- The index of the type with a short name. -/
def typeIndex? (name : String) : Option UInt16 :=
  (types.findIdx? (·.name == name)).map UInt16.ofNat

/-- The index of the property that a type, given by its short name, declares under a name. -/
def propertyIndex? (typeName name : String) : Option UInt16 := do
  let declaringType ← typeIndex? typeName
  let index ← properties.findIdx? fun entry =>
    entry.declaringType == declaringType && entry.name == name
  pure (UInt16.ofNat index)

end Registry

end XamlBinary
