import Mathlib.Data.List.Sort
import Mathlib.Data.String.Basic
import SheetScript.Proofs.Frames
import SheetScript.Table.Operand

/-! # Comparable cells

  Two cells are the same if neither comes before the other, and two missing ones are.
  Among cells of one kind this is an equivalence: what is compared is the value alone,
  where all NaN are one value and both zeros are one.  Across kinds it is not, so it
  takes the types of two columns to tell that their cells are of one kind.  Cells of
  comparable types keep their values in the common type.

  Sorting by keys puts every row somewhere, and none twice.
-/

namespace SheetScript

/-! ### Numbers that compare as equal -/

section Floats

open Float.Model

/-- A number up to the sign of zero. -/
def unsignedZero : UnpackedFloat → UnpackedFloat
  | .zero _ => .zero .positive
  | x => x

/-- Of two numbers neither is the lesser exactly if they are one number. -/
theorem neither_lt_iff {x y : UnpackedFloat} (hx : x.isNaN = false) (hy : y.isNaN = false) :
    x.lt y = false ∧ y.lt x = false ↔ unsignedZero x = unsignedZero y := by
  unfold UnpackedFloat.lt
  cases x with
  | notANumber => cases hx
  | infinity s =>
    cases y with
    | notANumber => cases hy
    | infinity t =>
      cases s <;> cases t
      case negative.negative | positive.positive => exact iff_of_true (by decide) rfl
      all_goals exact iff_of_false (by decide) fun h => by cases h
    | zero t => exact iff_of_false (by cases s <;> cases t <;> decide) fun h => by cases h
    | finite t m e _ =>
      refine iff_of_false ?_ fun h => by cases h
      cases s <;> cases t <;> dsimp only [UnpackedFloat.compare] <;> decide
  | zero s =>
    cases y with
    | notANumber => cases hy
    | infinity t => exact iff_of_false (by cases s <;> cases t <;> decide) fun h => by cases h
    | zero t => exact iff_of_true (by cases s <;> cases t <;> decide) rfl
    | finite t m e _ =>
      refine iff_of_false ?_ fun h => by cases h
      cases s <;> cases t <;> dsimp only [UnpackedFloat.compare] <;> decide
  | finite s m e _ =>
    cases y with
    | notANumber => cases hy
    | infinity t =>
      refine iff_of_false ?_ fun h => by cases h
      cases s <;> cases t <;> dsimp only [UnpackedFloat.compare] <;> decide
    | zero t =>
      refine iff_of_false ?_ fun h => by cases h
      cases s <;> cases t <;> dsimp only [UnpackedFloat.compare] <;> decide
    | finite t n k _ =>
      -- numbers of one sign are compared by exponent and mantissa
      dsimp only [unsignedZero]
      rw [UnpackedFloat.finite.injEq]
      cases s <;> cases t <;> dsimp only [UnpackedFloat.compare] <;>
        simp [Ordering.then_eq_lt, Ordering.then_eq_gt, compare_lt_iff_lt, compare_gt_iff_gt] <;>
        omega

theorem unsignedZero_isNaN (x : UnpackedFloat) : (unsignedZero x).isNaN = x.isNaN := by
  cases x <;> rfl

theorem eq_notANumber {x : UnpackedFloat} (h : x.isNaN = true) : x = .notANumber := by
  cases x with
  | notANumber => rfl
  | infinity s | zero s | finite s m e _ => cases h

/-- Numbers are compared by their parts. -/
theorem compareFloat_eq_unpack (x y : Float) :
    compareFloat x y =
      (let u := x.toModel.unpack
      let v := y.toModel.unpack
      if u.isNaN = true then (if v.isNaN = true then .eq else .gt)
      else if v.isNaN = true then .lt
      else if u.lt v = true then .lt
      else if v.lt u = true then .gt
      else .eq) := by
  have hnan : ∀ z : Float, z.isNaN = z.toModel.unpack.isNaN := fun _ => rfl
  have hlt : ∀ z w : Float, z < w ↔ z.toModel.unpack.lt w.toModel.unpack = true := by
    intro z w
    show decide (z.toModel < w.toModel) = true ↔ _
    rw [decide_eq_true_eq]
    rfl
  unfold compareFloat
  simp only [hnan, hlt]

/-- Numbers compare as equal exactly if they are one number, or both are none. -/
theorem compareFloat_eq_iff {x y : Float} :
    compareFloat x y = .eq ↔ unsignedZero x.toModel.unpack = unsignedZero y.toModel.unpack := by
  rw [compareFloat_eq_unpack]
  dsimp only
  generalize x.toModel.unpack = u
  generalize y.toModel.unpack = v
  by_cases hu : u.isNaN = true
  · rw [if_pos hu]
    by_cases hv : v.isNaN = true
    · rw [if_pos hv]
      exact iff_of_true rfl (by rw [eq_notANumber hu, eq_notANumber hv])
    · rw [if_neg hv]
      refine ⟨fun h => absurd h (by decide), fun h => ?_⟩
      rw [← unsignedZero_isNaN, ← h, unsignedZero_isNaN] at hv
      exact absurd hu hv
  · rw [if_neg hu]
    by_cases hv : v.isNaN = true
    · rw [if_pos hv]
      refine ⟨fun h => absurd h (by decide), fun h => ?_⟩
      rw [← unsignedZero_isNaN, h, unsignedZero_isNaN] at hu
      exact absurd hv hu
    · rw [if_neg hv, ← neither_lt_iff (Bool.eq_false_iff.mpr hu) (Bool.eq_false_iff.mpr hv)]
      cases u.lt v <;> cases v.lt u <;> simp

end Floats

/-! ### Kinds of cells -/

/-- What is compared with what. -/
inductive CellKind where
  | bool
  | int
  | float
  | text
  deriving DecidableEq

namespace DType

/-- The kind of the cells of a type; a type without values has any. -/
def kind : DType → CellKind
  | .int64 | .int32 | .uint8 | .uint32 | .date | .datetime | .duration => .int
  | .float64 | .float32 => .float
  | .text => .text
  | .bool | .null => .bool

/-- Whether cells of the types are compared: those of one type, and numbers that are
  whole on both sides or on neither. -/
def comparable (s t : DType) : Bool :=
  s == t || (s.isNumeric && t.isNumeric && s.isInteger == t.isInteger)

theorem kind_eq_of_comparable : ∀ {s t : DType}, s.comparable t = true → s.kind = t.kind := by
  intro s t h
  cases s <;> cases t <;> first | rfl | cases h

end DType

namespace Cell

/-- Whether a cell is missing or of a kind. -/
def isOf : CellKind → Cell → Bool
  | _, .missing | .bool, .bool _ | .int, .int _ | .float, .float _ | .text, .text _ => true
  | _, _ => false

theorem isOf_of_holds {t : DType} {c : Cell} (h : t.holds c = true) : c.isOf t.kind = true := by
  cases c <;> cases t <;> first | rfl | cases h

/-! ### Values -/

/-- What a cell holds, as far as it is compared. -/
inductive Value where
  | missing
  | bool (b : Bool)
  | int (n : Int)
  | float (x : Float.Model.UnpackedFloat)
  | text (s : String)

/-- The value of a cell. -/
def value : Cell → Value
  | .missing => .missing
  | .bool b => .bool b
  | .int n => .int n
  | .float x => .float (unsignedZero x.toModel.unpack)
  | .text s => .text s

theorem value_eq_missing {c : Cell} : c.value = .missing ↔ c.isMissing = true := by
  cases c <;> simp [value, isMissing]

/-- Cells of one kind are the same exactly if their values are. -/
theorem same_iff {k : CellKind} {a b : Cell} (ha : a.isOf k = true) (hb : b.isOf k = true) :
    same a b = true ↔ a.value = b.value := by
  cases a with
  | missing => cases b <;> simp [same, value]
  | bool x =>
    cases b with
    | missing => simp [same, value]
    | bool y =>
      cases x <;> cases y <;> simp [same, value, compareValue, compare, compareOfLessAndEq]
    | _ => cases k <;> simp [isOf] at ha hb
  | int m =>
    cases b with
    | missing => simp [same, value]
    | int n => simp [same, value, compareValue]
    | _ => cases k <;> simp [isOf] at ha hb
  | float x =>
    cases b with
    | missing => simp [same, value]
    | float y => simp [same, value, compareValue, compareFloat_eq_iff]
    | _ => cases k <;> simp [isOf] at ha hb
  | text s =>
    cases b with
    | missing => simp [same, value]
    | text t =>
      have htext : compareValue (.text s) (.text t) = .eq ↔ s = t := by
        unfold compareValue
        rcases lt_trichotomy s t with h | rfl | h
        · simp [h, h.ne]
        · simp
        · simp [h, h.not_gt, h.ne']
      simp [same, value, htext]
    | _ => cases k <;> simp [isOf] at ha hb

/-- Keys of the same kinds are the same exactly if they have the same values. -/
theorem sameAll_iff {ks : List CellKind} {as bs : List Cell}
    (has : List.Forall₂ (fun k c => isOf k c = true) ks as)
    (hbs : List.Forall₂ (fun k c => isOf k c = true) ks bs) :
    sameAll as bs = true ↔ as.map value = bs.map value := by
  induction has generalizing bs with
  | nil =>
    cases hbs
    simp [sameAll]
  | @cons k a ks as ha has ih =>
    cases hbs with
    | @cons _ b _ bs hb hbs =>
      have hrest := ih hbs
      simp only [sameAll, Bool.and_eq_true, beq_iff_eq] at hrest
      simp [sameAll, ← hrest, ← same_iff ha hb]
      tauto

end Cell

/-! ### Common types -/

namespace DType

theorem comparable_comm (s t : DType) : s.comparable t = t.comparable s := by
  cases s <;> cases t <;> rfl

/-- Comparable types have one common type, whichever comes first. -/
theorem join_comm_of_comparable {s t : DType} (h : s.comparable t = true) :
    (s.join t).getD s = (t.join s).getD t := by
  cases s <;> cases t <;> first | rfl | cases h

/-- The common type of two comparable types holds the values of the first: it is that
  type, or whole numbers of a wider one, or the wider floating-point numbers. -/
theorem join_cases {s t u : DType} (h : s.comparable t = true) (hu : (s.join t).getD s = u) :
    u = s ∨ (s.isInteger = true ∧ u.isInteger = true ∧ ∀ n, s.fits n = true → u.fits n = true)
      ∨ (s.isFloat = true ∧ u = .float64) := by
  subst hu
  cases s <;> cases t <;> first
    | exact .inl rfl
    | exact .inr (.inr ⟨rfl, rfl⟩)
    | refine .inr (.inl ⟨rfl, rfl, fun n hn => ?_⟩)
      simp [join, numericJoin, isNumeric, isInteger, fits] at hn ⊢
      omega
    | cases h

end DType

theorem Cell.cast_missing (s t : DType) : Cell.cast s t .missing = .missing := by
  cases t <;> first | rfl | (cases s <;> rfl)

theorem Cell.cast_self {t : DType} {c : Cell} (h : t.holds c = true) : Cell.cast t t c = c := by
  cases c with
  | missing => exact cast_missing t t
  | bool b =>
    obtain rfl : t = .bool := by simpa [DType.holds] using h
    rfl
  | int n =>
    have hint : (t.isInteger = true ∨ t.isTemporal = true) ∧ t.fits n = true := by
      simpa [DType.holds] using h
    obtain ⟨hint, hfits⟩ := hint
    cases t <;> simp_all [DType.isInteger, DType.isTemporal, cast, ofInt?]
  | float x =>
    have hfloat : t = .float64 ∨ t = .float32 ∧ Decimal.single x = x := by
      simpa [DType.holds] using h
    rcases hfloat with rfl | ⟨rfl, hx⟩
    · rfl
    · simp [cast, toFloat?, ofFloat?, hx]
  | text s =>
    obtain rfl : t = .text := by simpa [DType.holds] using h
    rfl

/-- A cell keeps its value in the common type of its own and a comparable one. -/
theorem Cell.cast_join {s t : DType} {c : Cell} (hst : s.comparable t = true)
    (hc : s.holds c = true) : Cell.cast s ((s.join t).getD s) c = c := by
  generalize hu : (s.join t).getD s = u
  rcases DType.join_cases hst hu with rfl | ⟨hs, hu, hfits⟩ | ⟨hs, rfl⟩
  · exact cast_self hc
  · cases c with
    | missing => exact cast_missing s u
    | int n =>
      have hn : u.fits n = true := hfits n (by simp_all [DType.holds])
      cases u <;> simp_all [DType.isInteger, cast, ofInt?]
    | bool b =>
      obtain rfl : s = .bool := by simpa [DType.holds] using hc
      cases hs
    | float x => cases s <;> simp_all [DType.holds, DType.isInteger]
    | text v =>
      obtain rfl : s = .text := by simpa [DType.holds] using hc
      cases hs
  · cases c with
    | missing => rfl
    | float x => rfl
    | int n => cases s <;> simp_all [DType.holds, DType.isInteger, DType.isTemporal, DType.isFloat]
    | bool b =>
      obtain rfl : s = .bool := by simpa [DType.holds] using hc
      cases hs
    | text v =>
      obtain rfl : s = .text := by simpa [DType.holds] using hc
      cases hs

/-! ### Sorted rows -/

/-- Sorting lists every row once. -/
theorem sortedRows_perm (descending : Bool) (place : Cell.MissingPlace) (keys : List (List Cell)) :
    (sortedRows descending place keys).Perm (List.range keys.length) := by
  unfold sortedRows
  refine ((List.mergeSort_perm _ _).map Prod.snd).trans (.of_eq ?_)
  exact List.ext_getElem (by simp) fun i _ _ => by simp

end SheetScript
