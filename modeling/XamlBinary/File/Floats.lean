import XamlBinary.File.Basic

/-!
The literals of a file, at every place where one can stand, and the floats in
them.  Floats are kept by their bits, but compared as numbers.
-/

namespace XamlBinary

def Thickness.floats (t : Thickness) : List Single := [t.left, t.top, t.right, t.bottom]

def Constant.floats : Constant → List Single
  | float value => [value]
  | gridLength _ value => [value]
  | thickness value => value.floats
  | _ => []

def SetterValue.constants : SetterValue → List Constant
  | constant value => [value]
  | _ => []

def RuntimeData.constants : RuntimeData → List Constant
  | visualStateGroups _ => []
  | resourceDictionary _ => []
  | style data => data.setters.flatMap (·.value.constants)
  | deferredElement data => data.properties.map (·.value)

def Node.constants : Node → List Constant
  | .value constant => [constant]
  | .runtimeData data _ => data.constants
  | _ => []

def Substream.constants (s : Substream) : List Constant := s.nodes.flatMap (·.node.constants)

namespace File

def constants (file : File) : List Constant := file.substreams.flatMap Substream.constants

def floats (file : File) : List Single := file.constants.flatMap Constant.floats

end File

end XamlBinary
