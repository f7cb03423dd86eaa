import XamlBinary.File.Floats

/-!
When a file equals itself.  Everything in a file is compared by what it is,
except floats, which are compared as numbers; so the comparison of a file with
itself fails at a NaN, and nowhere else.
-/

namespace XamlBinary

/-- A list equals itself where its elements do. -/
theorem list_beq_self_iff {α : Type} [BEq α] (l : List α) :
    (l == l) = true ↔ ∀ a ∈ l, (a == a) = true := by
  induction l with
  | nil => simp
  | cons a l ih => simp [ih]

theorem Thickness.beq_self_iff (t : Thickness) :
    (t == t) = true ↔ ∀ x ∈ t.floats, x.isNaN = false := by
  show (t.left == t.left && (t.top == t.top && (t.right == t.right && t.bottom == t.bottom))) =
    true ↔ _
  simp [floats, Single.beq_self_iff]

theorem Constant.beq_self_iff (c : Constant) :
    (c == c) = true ↔ ∀ x ∈ c.floats, x.isNaN = false := by
  cases c with
  | float x =>
      show (x == x) = true ↔ _
      simp [floats, Single.beq_self_iff]
  | gridLength unit x =>
      show (unit == unit && x == x) = true ↔ _
      simp [floats, Single.beq_self_iff]
  | thickness t => exact t.beq_self_iff
  | enumeration type value =>
      show (type == type && value == value) = true ↔ _
      simp [floats]
  | nullString => exact iff_of_true rfl (by simp [floats])
  | bool value =>
      show (value == value) = true ↔ _
      simp [floats]
  | color argb =>
      show (argb == argb) = true ↔ _
      simp [floats]
  | sharedString id =>
      show (id == id) = true ↔ _
      simp [floats]
  | signed value =>
      show (value == value) = true ↔ _
      simp [floats]
  | uniqueString text =>
      show (text == text) = true ↔ _
      simp [floats]

/-! ### From the literals to the file

Each level equals itself where the literals below it do. -/

theorem SetterValue.beq_self_iff (v : SetterValue) :
    (v == v) = true ↔ ∀ c ∈ v.constants, (c == c) = true := by
  cases v with
  | constant c =>
      show (c == c) = true ↔ _
      simp [constants]
  | object token =>
      show (token == token) = true ↔ _
      simp [constants]
  | staticResource key =>
      show (key == key) = true ↔ _
      simp [constants]
  | themeResource key =>
      show (key == key) = true ↔ _
      simp [constants]

theorem Setter.beq_self_iff (s : Setter) : (s == s) = true ↔ (s.value == s.value) = true := by
  show (s.property == s.property && (s.value == s.value && s.isMutable == s.isMutable)) = true ↔ _
  simp

theorem EagerProperty.beq_self_iff (p : EagerProperty) :
    (p == p) = true ↔ (p.value == p.value) = true := by
  show (p.property == p.property && p.value == p.value) = true ↔ _
  simp

theorem RuntimeData.beq_self_iff (d : RuntimeData) :
    (d == d) = true ↔ ∀ c ∈ d.constants, (c == c) = true := by
  cases d with
  | visualStateGroups data =>
      show (data == data) = true ↔ _
      simp [constants]
  | resourceDictionary data =>
      show (data == data) = true ↔ _
      simp [constants]
  | style data =>
      show (data.version == data.version && data.setters == data.setters) = true ↔ _
      simp only [beq_self_eq_true, Bool.true_and, list_beq_self_iff, Setter.beq_self_iff,
        SetterValue.beq_self_iff, constants, List.mem_flatMap]
      grind
  | deferredElement data =>
      show (data.version == data.version && (data.name == data.name &&
        (data.properties == data.properties && (data.realize == data.realize &&
          data.hasLoadBinding == data.hasLoadBinding)))) = true ↔ _
      simp [list_beq_self_iff, EagerProperty.beq_self_iff, constants]

theorem Node.beq_self_iff (n : Node) :
    (n == n) = true ↔ ∀ c ∈ n.constants, (c == c) = true := by
  cases n with
  | value c =>
      show (c == c) = true ↔ _
      simp [constants]
  | runtimeData data substream =>
      show (data == data && substream == substream) = true ↔ _
      simp [RuntimeData.beq_self_iff, constants]
  | startObject type =>
      show (type == type) = true ↔ _
      simp [constants]
  | startProperty property =>
      show (property == property) = true ↔ _
      simp [constants]
  | text id =>
      show (id == id) = true ↔ _
      simp [constants]
  | namespaceDeclaration shortName xmlNamespace =>
      show (shortName == shortName && xmlNamespace == xmlNamespace) = true ↔ _
      simp [constants]
  | lineInfo lineDelta columnDelta =>
      show (lineDelta == lineDelta && columnDelta == columnDelta) = true ↔ _
      simp [constants]
  | lineInfoAbsolute line column =>
      show (line == line && column == column) = true ↔ _
      simp [constants]
  | endObject => exact iff_of_true rfl (by simp [constants])
  | endProperty => exact iff_of_true rfl (by simp [constants])
  | endOfAttributes => exact iff_of_true rfl (by simp [constants])
  | endOfStream => exact iff_of_true rfl (by simp [constants])

theorem PlacedNode.beq_self_iff (p : PlacedNode) :
    (p == p) = true ↔ (p.node == p.node) = true := by
  show (p.offset == p.offset && p.node == p.node) = true ↔ _
  simp

theorem Substream.beq_self_iff (s : Substream) :
    (s == s) = true ↔ ∀ c ∈ s.constants, (c == c) = true := by
  show (s.entry == s.entry && (s.nodes == s.nodes && s.lines == s.lines)) = true ↔ _
  simp only [beq_self_eq_true, Bool.true_and, Bool.and_true, list_beq_self_iff,
    PlacedNode.beq_self_iff, Node.beq_self_iff, constants, List.mem_flatMap]
  grind

/-- A file equals itself exactly where none of its floats is a NaN. -/
theorem File.beq_self_iff (file : File) :
    (file == file) = true ↔ ∀ x ∈ file.floats, x.isNaN = false := by
  show (file.header == file.header && (file.metadata == file.metadata &&
    file.substreams == file.substreams)) = true ↔ _
  simp only [beq_self_eq_true, Bool.true_and, list_beq_self_iff, Substream.beq_self_iff,
    Constant.beq_self_iff, floats, constants, List.mem_flatMap]
  grind

end XamlBinary
