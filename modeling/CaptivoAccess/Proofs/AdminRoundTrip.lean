import CaptivoAccess.Lib.Run
import CaptivoAccess.Spec.AdminAudit

/-! The admin chain is hashed over the metadata the caller passed and verified over
what the column gives back. `stableStringify` writes the text of a JSON value
(`toJson`), so the two texts agree when the trip leaves that value alone: when no
object holds an `undefined` field and there is no date. -/

namespace Captivo.Audit

open Lib.JsonText Lib.JsValue Lib.HashChain

mutual

/-- The value that `stableStringify` writes. -/
def toJson : JsVal → Json
  | .undefined | .null | .nonFinite => .null
  | .bool b => .bool b
  | .num n => .num n
  | .str s => .str s
  | .date _ => .obj []
  | .arr xs => .arr (toJsonAll xs)
  | .obj fs => .obj (sortByKey (toJsonFields fs))

def toJsonAll : List JsVal → List Json
  | [] => []
  | x :: xs => toJson x :: toJsonAll xs

def toJsonFields : List (Units × JsVal) → List (Units × Json)
  | [] => []
  | (k, v) :: fs => (k, toJson v) :: toJsonFields fs

end

mutual

theorem stableStringify_eq_render : (v : JsVal) → stableStringify v = render (toJson v)
  | .undefined | .null | .nonFinite | .bool _ | .num _ | .str _ | .date _ => rfl
  | .arr xs => by rw [stableStringify, toJson, render, stableStringifyAll_eq_render xs]
  | .obj fs => by
    rw [stableStringify, toJson, render, stableStringifyFields_eq_render fs, sortByKey_map, renderFields_eq_map,
      List.map_map]
    rfl

theorem stableStringifyAll_eq_render : (xs : List JsVal) → stableStringifyAll xs = renderAll (toJsonAll xs)
  | [] => rfl
  | x :: xs => by
    rw [stableStringifyAll, toJsonAll, renderAll, stableStringify_eq_render x, stableStringifyAll_eq_render xs]

theorem stableStringifyFields_eq_render : (fs : List (Units × JsVal)) →
    stableStringifyFields fs = (toJsonFields fs).map fun p => (p.1, render p.2)
  | [] => rfl
  | (k, v) :: fs => by
    rw [stableStringifyFields, toJsonFields, List.map_cons, stableStringify_eq_render v,
      stableStringifyFields_eq_render fs]

end

theorem stableStringify_eq_iff (v w : JsVal) : stableStringify v = stableStringify w ↔ toJson v = toJson w := by
  rw [stableStringify_eq_render, stableStringify_eq_render]
  exact render_injective.eq_iff

theorem toJsonFields_eq_map (fs : List (Units × JsVal)) : toJsonFields fs = fs.map fun p => (p.1, toJson p.2) := by
  induction fs with
  | nil => rfl
  | cons p fs ih => rw [toJsonFields, ih, List.map_cons]

theorem toJsonFields_keys (fs : List (Units × JsVal)) : (toJsonFields fs).map Prod.fst = fs.map Prod.fst := by
  rw [toJsonFields_eq_map, List.map_map]
  rfl

mutual

/-- No field of an object is `undefined`, and there is no date, at any depth. -/
def plain : JsVal → Bool
  | .date _ => false
  | .arr xs => plainAll xs
  | .obj fs => plainFields fs
  | _ => true

def plainAll : List JsVal → Bool
  | [] => true
  | x :: xs => plain x && plainAll xs

def plainFields : List (Units × JsVal) → Bool
  | [] => true
  | (_, v) :: fs => !v.isUndefined && plain v && plainFields fs

end

section Trip

variable (iso : ℤ → Units) (J : Jsonb)

/-- The column's order does not matter: sorting undoes it. What does is whether a field was lost. -/
theorem sorted_fields_eq_iff {fs : List (Units × JsVal)} (hn : (fs.map Prod.fst).Nodup) :
    sortByKey (toJsonFields (J.order (roundTripFields iso J fs))) = sortByKey (toJsonFields fs) ↔
      toJsonFields (roundTripFields iso J fs) = toJsonFields fs := by
  have hkeys := roundTripFields_keys iso J fs
  have horder : (toJsonFields (J.order (roundTripFields iso J fs))).Perm (toJsonFields (roundTripFields iso J fs)) := by
    rw [toJsonFields_eq_map, toJsonFields_eq_map]
    exact (J.perm _).map _
  have hsort : sortByKey (toJsonFields (J.order (roundTripFields iso J fs))) =
      sortByKey (toJsonFields (roundTripFields iso J fs)) := by
    apply sortByKey_eq_of_perm _ horder
    rw [toJsonFields_keys]
    exact hn.sublist hkeys
  rw [hsort]
  refine ⟨fun h => ?_, fun h => by rw [h]⟩
  have hperm : (toJsonFields (roundTripFields iso J fs)).Perm (toJsonFields fs) := by
    refine (sortByKey_perm _).symm.trans ?_
    rw [h]
    exact sortByKey_perm _
  have hlen : ((roundTripFields iso J fs).map Prod.fst).length = (fs.map Prod.fst).length := by
    rw [← toJsonFields_keys, ← toJsonFields_keys fs, List.length_map, List.length_map]
    exact hperm.length_eq
  apply eq_of_perm_of_keys _ hperm
  · rw [toJsonFields_keys, toJsonFields_keys]
    exact hkeys.eq_of_length hlen
  · rwa [toJsonFields_keys]

theorem dropped_field_ne (k : Units) (v : JsVal) (fs : List (Units × JsVal)) :
    toJsonFields (roundTripFields iso J fs) ≠ (k, toJson v) :: toJsonFields fs := by
  intro h
  have hlen := congrArg (fun l => (l.map Prod.fst).length) h
  have hle := (roundTripFields_keys iso J fs).length_le
  simp only [List.map_cons, toJsonFields_keys, List.length_cons] at hlen
  omega

mutual

theorem toJson_roundTrip_iff : (v : JsVal) → distinct v = true →
    (toJson (roundTrip iso J v) = toJson v ↔ plain v = true)
  | .undefined, _ | .null, _ | .nonFinite, _ | .bool _, _ | .num _, _ | .str _, _ => by
    simp [roundTrip, toJson, plain]
  | .date none, _ | .date (some _), _ => by simp [roundTrip, toJson, plain]
  | .arr xs, hd => by
    rw [roundTrip, toJson, toJson, plain, Json.arr.injEq]
    exact toJsonAll_roundTrip_iff xs hd
  | .obj fs, hd => by
    simp only [distinct, Bool.and_eq_true, decide_eq_true_eq] at hd
    rw [roundTrip, toJson, toJson, plain, Json.obj.injEq, sorted_fields_eq_iff iso J hd.1]
    exact toJsonFields_roundTrip_iff fs hd.2

theorem toJsonAll_roundTrip_iff : (xs : List JsVal) → distinctAll xs = true →
    (toJsonAll (roundTripAll iso J xs) = toJsonAll xs ↔ plainAll xs = true)
  | [], _ => by simp [roundTripAll, toJsonAll, plainAll]
  | x :: xs, hd => by
    simp only [distinctAll, Bool.and_eq_true] at hd
    rw [roundTripAll, toJsonAll, toJsonAll, plainAll, List.cons.injEq, Bool.and_eq_true,
      toJson_roundTrip_iff x hd.1, toJsonAll_roundTrip_iff xs hd.2]

theorem toJsonFields_roundTrip_iff : (fs : List (Units × JsVal)) → distinctFields fs = true →
    (toJsonFields (roundTripFields iso J fs) = toJsonFields fs ↔ plainFields fs = true)
  | [], _ => by simp [roundTripFields, toJsonFields, plainFields]
  | (k, v) :: fs, hd => by
    simp only [distinctFields, Bool.and_eq_true] at hd
    have hv := toJson_roundTrip_iff v hd.1
    have hfs := toJsonFields_roundTrip_iff fs hd.2
    by_cases hu : v.isUndefined = true
    · simp only [roundTripFields, toJsonFields, plainFields, hu, if_true, Bool.not_true, Bool.false_and,
        Bool.false_eq_true, iff_false]
      exact dropped_field_ne iso J k v fs
    · simp only [Bool.not_eq_true] at hu
      simp only [roundTripFields, toJsonFields, plainFields, hu, Bool.false_eq_true, if_false, List.cons.injEq,
        Prod.mk.injEq, true_and, Bool.not_false, Bool.true_and, Bool.and_eq_true]
      rw [hv, hfs]

end

theorem stableStringify_roundTrip_iff {v : JsVal} (hd : distinct v = true) :
    stableStringify (roundTrip iso J v) = stableStringify v ↔ plain v = true := by
  rw [stableStringify_eq_iff]
  exact toJson_roundTrip_iff iso J v hd

end Trip

end Captivo.Audit
