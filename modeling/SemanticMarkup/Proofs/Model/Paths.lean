import SemanticMarkup.ModelAccess
import SemanticMarkup.Proofs.Entry.Names
import SemanticMarkup.Value.Lookup

/-!
# Paths through nested mappings

A model of mappings inside mappings is a tree whose leaves are scalars. The value under a path is
the one under the path as a whole, or else the one that its segments lead to from mapping to
mapping; where a segment is missing the path has no value.

The walk does not end at a leaf, though: a scalar is an object as well, with parts and operations
of its own, and a segment that names one of them reads it. So a path beyond a leaf has no value
only if its next segment is not one of these names.
-/

namespace SemanticMarkup

open SemanticMarkup.Text

namespace Value

/-- A tree of mappings with scalars as leaves. -/
inductive IsTree : Value → Prop
  | null : IsTree .null
  | bool (b : Bool) : IsTree (.bool b)
  | int (n : Int) : IsTree (.int n)
  | float (x : Number.Double) : IsTree (.float x)
  | text {v : Value} (h : v.IsString) : IsTree v
  | dict {entries : Entries} (keys : ∀ e ∈ entries, e.1.IsString)
      (values : ∀ e ∈ entries, IsTree e.2) : IsTree (.dict entries)

/-- A name between double underscores. -/
def underscored (name : String) : String :=
  "__" ++ name ++ "__"

/-- The names that every object has. -/
def objectNames : List String :=
  ["class", "delattr", "dir", "doc", "eq", "format", "ge", "getattribute", "getstate", "gt", "hash",
    "init", "init_subclass", "le", "lt", "ne", "new", "reduce", "reduce_ex", "repr", "setattr",
    "sizeof", "str", "subclasshook"].map underscored

/-- The names that every number has. -/
def numberNames : List String :=
  ["as_integer_ratio", "conjugate", "imag", "real"] ++
    ["abs", "add", "bool", "ceil", "divmod", "float", "floor", "floordiv", "getnewargs", "int",
      "mod", "mul", "neg", "pos", "pow", "radd", "rdivmod", "rfloordiv", "rmod", "rmul", "round",
      "rpow", "rsub", "rtruediv", "sub", "truediv", "trunc"].map underscored

/-- The names that whole numbers have besides. -/
def wholeNumberNames : List String :=
  ["bit_count", "bit_length", "denominator", "from_bytes", "numerator", "to_bytes"] ++
    ["and", "index", "invert", "lshift", "or", "rand", "rlshift", "ror", "rrshift", "rshift",
      "rxor", "xor"].map underscored

/-- The names that doubles have besides. -/
def doubleNames : List String :=
  ["fromhex", "hex", "is_integer", underscored "getformat"]

/-- The names that texts have. -/
def textNames : List String :=
  ["capitalize", "casefold", "center", "count", "encode", "endswith", "expandtabs", "find",
    "format", "format_map", "index", "isalnum", "isalpha", "isascii", "isdecimal", "isdigit",
    "isidentifier", "islower", "isnumeric", "isprintable", "isspace", "istitle", "isupper", "join",
    "ljust", "lower", "lstrip", "maketrans", "partition", "removeprefix", "removesuffix",
    "replace", "rfind", "rindex", "rjust", "rpartition", "rsplit", "rstrip", "split",
    "splitlines", "startswith", "strip", "swapcase", "title", "translate", "upper", "zfill"] ++
    ["add", "contains", "getitem", "getnewargs", "iter", "len", "mod", "mul", "rmod",
      "rmul"].map underscored

/-- The names of the parts and operations of a scalar. A path never goes on from no value. -/
def memberNames : Value → List String
  | .bool _ => objectNames ++ numberNames ++ wholeNumberNames
  | .int _ => objectNames ++ numberNames ++ wholeNumberNames
  | .float _ => objectNames ++ numberNames ++ doubleNames
  | .text _ => objectNames ++ textNames
  | .garbled _ => objectNames ++ textNames
  | _ => []

theorem ne_of_not_mem {name part : String} {names : List String} (h : name ∉ names)
    (hpart : part ∈ names) : name ≠ part := by
  rintro rfl
  exact h hpart

/-- The parts of a number are among its names. -/
theorem numberPart?_eq_none {whole : Bool} {name : String} {self zero one : Value}
    (hnumber : name ∉ numberNames) (hwhole : whole = true → name ∉ wholeNumberNames) :
    numberPart? whole name self zero one = none := by
  rw [numberPart?, if_neg (ne_of_not_mem hnumber (by decide)),
    if_neg (ne_of_not_mem hnumber (by decide))]
  cases whole with
  | false => rfl
  | true =>
      have hwhole := hwhole rfl
      rw [if_neg (by decide), if_neg (ne_of_not_mem hwhole (by decide)),
        if_neg (ne_of_not_mem hwhole (by decide))]

/-- A leaf has no other attributes than its members. -/
theorem attribute?_eq_none {v : Value} {name : String} (hleaf : v.IsTree)
    (hname : name ∉ v.memberNames) : v.attribute? name = none := by
  cases hleaf with
  | null => rfl
  | bool b | int n =>
      simp only [memberNames, List.mem_append, not_or] at hname
      exact numberPart?_eq_none hname.1.2 fun _ => hname.2
  | float x =>
      simp only [memberNames, List.mem_append, not_or] at hname
      exact numberPart?_eq_none hname.1.2 nofun
  | text h => cases h <;> rfl
  | dict _ _ => rfl

end Value

namespace ModelAccess

/-- Names lead from mapping to mapping to a value. -/
inductive Leads : Value → List String → Value → Prop
  | here (v : Value) : Leads v [] v
  | step {entries : Entries} {name : String} {names : List String} {next v : Value}
      (found : entries.named? name = some next) (rest : Leads next names v) :
      Leads (.dict entries) (name :: names) v

/-- The walk along names stops at a place that is no mapping, or one without the next name. -/
inductive StopsAt : Value → List String → Value → String → Prop
  | here {place : Value} {name : String} {names : List String}
      (missing : ∀ entries : Entries, place = .dict entries → entries.named? name = none) :
      StopsAt place (name :: names) place name
  | step {entries : Entries} {name last : String} {names : List String} {next place : Value}
      (found : entries.named? name = some next) (rest : StopsAt next names place last) :
      StopsAt (.dict entries) (name :: names) place last

variable {model v place : Value} {names : List String} {name : String}

/-- A walk goes through or stops somewhere. -/
theorem exists_leads_or_stopsAt (model : Value) (names : List String) :
    (∃ v, Leads model names v) ∨ ∃ place name, StopsAt model names place name := by
  induction names generalizing model with
  | nil => exact .inl ⟨model, .here model⟩
  | cons name names ih =>
      by_cases hnext : ∃ (entries : Entries) (next : Value),
          model = .dict entries ∧ entries.named? name = some next
      · obtain ⟨entries, next, rfl, hfound⟩ := hnext
        obtain ⟨v, hv⟩ | ⟨place, last, hstop⟩ := ih next
        · exact .inl ⟨v, .step hfound hv⟩
        · exact .inr ⟨place, last, .step hfound hstop⟩
      · refine .inr ⟨model, name, .here fun entries hmodel => ?_⟩
        rw [← Option.not_isSome_iff_eq_none, Option.isSome_iff_exists]
        exact fun ⟨next, hfound⟩ => hnext ⟨entries, next, hmodel, hfound⟩

/-- A walk stops at one place only. -/
theorem StopsAt.unique {other : Value} {last : String} (h : StopsAt model names place name)
    (h' : StopsAt model names other last) : other = place ∧ last = name := by
  induction h with
  | here missing =>
      cases h' with
      | here _ => exact ⟨rfl, rfl⟩
      | step found rest =>
          rw [missing _ rfl] at found
          cases found
  | step found rest ih =>
      cases h' with
      | here missing =>
          rw [missing _ rfl] at found
          cases found
      | step found' rest' =>
          rw [found, Option.some.injEq] at found'
          exact ih (found' ▸ rest')

theorem walk?_dict {entries : Entries} {next : Value} (found : entries.named? name = some next) :
    walk? (.dict entries) (name :: names) = walk? next names := by
  have hstep : step? (.dict entries) name = some next := found
  rw [walk?, hstep]
  rfl

theorem Leads.walk? (h : Leads model names v) : ModelAccess.walk? model names = some v := by
  induction h with
  | here v => rfl
  | step found rest ih => exact (walk?_dict found).trans ih

/-- A walk that stops finds nothing, unless the next name is a member of the place. -/
theorem StopsAt.walk? (h : StopsAt model names place name) (hmodel : model.IsTree)
    (hname : name ∉ place.memberNames) : ModelAccess.walk? model names = none := by
  induction h with
  | @here place name names missing =>
      rw [ModelAccess.walk?]
      split
      · rfl
      · have hstep : step? place name = none := by
          cases place with
          | dict entries => exact missing entries rfl
          | _ => exact Value.attribute?_eq_none hmodel hname
        rw [hstep]
  | step found rest ih =>
      rw [walk?_dict found]
      cases hmodel with
      | text h => cases h
      | dict keys values => exact ih (values _ (Entries.mem_of_named? found)) hname

/-- The segments of a path have no points in them, and make the path with points between them. -/
theorem joined_segments (path : String) :
    ".".intercalate (segments path) = path ∧ ∀ segment ∈ segments path, '.' ∉ segment.toList := by
  constructor
  · have htexts : (segments path).map String.toList = path.toList.splitOn '.' := by
      rw [segments, List.map_map]
      exact (List.map_congr_left fun cs _ => String.toList_ofList).trans (List.map_id _)
    have hpoint : ".".toList = ['.'] := rfl
    rw [← String.toList_inj, String.toList_intercalate, htexts, hpoint, List.intercalate_splitOn]
  · intro segment hsegment
    obtain ⟨piece, hpiece, rfl⟩ := List.mem_map.mp hsegment
    rw [String.toList_ofList]
    exact not_mem_of_mem_splitOn hpiece

theorem valueAt_of_named? {entries : Entries} {path : String} (absent : Value)
    (h : entries.named? path = some v) : valueAt (.dict entries) path absent = v := by
  have hdirect : direct? (.dict entries) path = some v := h
  rw [valueAt, find?, hdirect]
  rfl

theorem valueAt_of_walk? {entries : Entries} {path : String} (absent : Value)
    (h : entries.named? path = none) : valueAt (.dict entries) path absent =
      (ModelAccess.walk? (.dict entries) (segments path)).getD absent := by
  have hdirect : direct? (.dict entries) path = none := h
  rw [valueAt, find?, hdirect]
  rfl

/-- The value under a path in nested mappings: the one under the path as a whole if there is one,
and otherwise the one that the segments between the points lead to, whatever is given for a
missing value. That one is returned exactly if a segment is missing, as long as no segment names a
member of the leaf where the walk stops. -/
theorem valueAt_tree {entries : Entries} (h : (Value.dict entries).IsTree) (path : String) :
    (".".intercalate (segments path) = path ∧ ∀ segment ∈ segments path, '.' ∉ segment.toList) ∧
    (∀ v, entries.named? path = some v → ∀ absent, valueAt (.dict entries) path absent = v) ∧
    (entries.named? path = none →
      (∀ v, Leads (.dict entries) (segments path) v →
        ∀ absent, valueAt (.dict entries) path absent = v) ∧
      ((∀ place name, StopsAt (.dict entries) (segments path) place name →
          name ∉ place.memberNames) →
        ((∀ absent, valueAt (.dict entries) path absent = absent) ↔
          ∃ place name, StopsAt (.dict entries) (segments path) place name))) := by
  refine ⟨joined_segments path, fun v hv absent => valueAt_of_named? absent hv, fun hpath => ?_⟩
  have hleads : ∀ v, Leads (.dict entries) (segments path) v →
      ∀ absent, valueAt (.dict entries) path absent = v := by
    intro v hv absent
    rw [valueAt_of_walk? absent hpath, hv.walk?, Option.getD_some]
  refine ⟨hleads, fun hmembers => ⟨fun habsent => ?_, ?_⟩⟩
  · obtain ⟨v, hv⟩ | hstop := exists_leads_or_stopsAt (.dict entries) (segments path)
    · have hnull := (hleads v hv .null).symm.trans (habsent .null)
      have htrue := (hleads v hv (.bool true)).symm.trans (habsent (.bool true))
      rw [hnull] at htrue
      cases htrue
    · exact hstop
  · rintro ⟨place, name, hstop⟩ absent
    rw [valueAt_of_walk? absent hpath, hstop.walk? h (hmembers place name hstop), Option.getD_none]

/-- A model with a mapping inside, and a name with a point that hides a path into it. -/
def nestedModel : Entries :=
  [(.text "address", .dict [(.text "city", .text "Oslo"), (.text "floor", .int 0)]),
    (.text "address.city", .text "Paris")]

theorem valueAt_tree_nestedModel :
    (Value.dict nestedModel).IsTree ∧
    (∀ absent, valueAt (.dict nestedModel) "address.city" absent = .text "Paris") ∧
    (∀ absent, valueAt (.dict nestedModel) "address.floor" absent = .int 0) ∧
    ∀ absent, valueAt (.dict nestedModel) "address.city.name" absent = absent := by
  have hinner : (Value.dict [(.text "city", .text "Oslo"), (.text "floor", .int 0)]).IsTree := by
    refine .dict ?_ ?_
    · simp only [List.forall_mem_cons]
      exact ⟨.text _, .text _, nofun⟩
    · simp only [List.forall_mem_cons]
      exact ⟨.text (.text _), .int 0, nofun⟩
  have htree : (Value.dict nestedModel).IsTree := by
    refine .dict ?_ ?_
    · simp only [nestedModel, List.forall_mem_cons]
      exact ⟨.text _, .text _, nofun⟩
    · simp only [nestedModel, List.forall_mem_cons]
      exact ⟨hinner, .text (.text _), nofun⟩
  have hcity : Entries.named? nestedModel "address.city" = some (.text "Paris") := by rfl
  have hfloor : Entries.named? nestedModel "address.floor" = none := by rfl
  have hname : Entries.named? nestedModel "address.city.name" = none := by rfl
  have hfloorSegments : segments "address.floor" = ["address", "floor"] := by decide
  have hnameSegments : segments "address.city.name" = ["address", "city", "name"] := by decide
  refine ⟨htree, (valueAt_tree htree "address.city").2.1 _ hcity, ?_, ?_⟩
  · refine ((valueAt_tree htree "address.floor").2.2 hfloor).1 _ ?_
    rw [hfloorSegments]
    exact .step rfl (.step rfl (.here _))
  · have hstop : StopsAt (.dict nestedModel) (segments "address.city.name") (.text "Oslo")
        "name" := by
      rw [hnameSegments]
      exact .step rfl (.step rfl (.here nofun))
    refine (((valueAt_tree htree "address.city.name").2.2 hname).2 fun place name h => ?_).mpr
      ⟨_, _, hstop⟩
    obtain ⟨rfl, rfl⟩ := hstop.unique h
    decide

/-- A path beyond a number reads a part of it, where its walk through the mappings stops. -/
theorem valueAt_part :
    StopsAt (.dict [(.text "age", .int 5)]) ["age", "real"] (.int 5) "real" ∧
      valueAt (.dict [(.text "age", .int 5)]) "age.real" (.text "n/a") = .int 5 :=
  ⟨.step rfl (.here nofun), by rfl⟩

end ModelAccess

end SemanticMarkup
