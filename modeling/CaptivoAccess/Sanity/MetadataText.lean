import CaptivoAccess.Proofs.AdminRoundTrip

/-! Which metadata is read off its text. `stableStringify` writes one text for `null` and
`undefined` and one for a date and an empty object, which the column tells apart; a value
without any of them below its top (`rigid`) is stored as its text says. -/

namespace Captivo.Audit

open Lib.JsonText Lib.JsValue

def isNull : Json → Bool
  | .null => true
  | _ => false

mutual

/-- No field of an object is `null`, and no object is empty. -/
def rigid : Json → Bool
  | .arr xs => rigidAll xs
  | .obj fs => !fs.isEmpty && rigidFields fs
  | _ => true

def rigidAll : List Json → Bool
  | [] => true
  | x :: xs => rigid x && rigidAll xs

def rigidFields : List (Units × Json) → Bool
  | [] => true
  | (_, v) :: fs => !isNull v && rigid v && rigidFields fs

end

/-- An object that is written `{}`. -/
def emptyObject (loose : Bool) : JsVal := if loose then .date none else .obj []

mutual

/-- Another value with the same text: one that the column keeps, or a loose one with `undefined` for a field
that is `null` and a date for an empty object. -/
def recast (loose : Bool) : JsVal → JsVal
  | .undefined | .null | .nonFinite => .null
  | .date _ => emptyObject loose
  | .arr xs => .arr (recastAll loose xs)
  | .obj [] => emptyObject loose
  | .obj (f :: fs) => .obj (recastFields loose (f :: fs))
  | v => v

def recastAll (loose : Bool) : List JsVal → List JsVal
  | [] => []
  | x :: xs => recast loose x :: recastAll loose xs

def recastFields (loose : Bool) : List (Units × JsVal) → List (Units × JsVal)
  | [] => []
  | (k, v) :: fs => (k, if loose && isNull (toJson v) then .undefined else recast loose v) :: recastFields loose fs

end

theorem toJson_emptyObject (loose : Bool) : toJson (emptyObject loose) = .obj [] := by
  cases loose <;> rfl

theorem eq_null_of_isNull {j : Json} (h : isNull j = true) : j = .null := by
  cases j <;> simp_all [isNull]

mutual

theorem toJson_recast (loose : Bool) : (v : JsVal) → toJson (recast loose v) = toJson v
  | .undefined | .null | .nonFinite | .bool _ | .num _ | .str _ => rfl
  | .date _ => toJson_emptyObject loose
  | .arr xs => by rw [recast, toJson, toJson, toJsonAll_recastAll loose xs]
  | .obj [] => toJson_emptyObject loose
  | .obj (f :: fs) => by rw [recast, toJson, toJson, toJsonFields_recastFields loose (f :: fs)]

theorem toJsonAll_recastAll (loose : Bool) : (xs : List JsVal) → toJsonAll (recastAll loose xs) = toJsonAll xs
  | [] => rfl
  | x :: xs => by rw [recastAll, toJsonAll, toJsonAll, toJson_recast loose x, toJsonAll_recastAll loose xs]

theorem toJsonFields_recastFields (loose : Bool) : (fs : List (Units × JsVal)) →
    toJsonFields (recastFields loose fs) = toJsonFields fs
  | [] => rfl
  | (k, v) :: fs => by
    rw [recastFields, toJsonFields, toJsonFields, toJsonFields_recastFields loose fs]
    split_ifs with hnull
    · rw [Bool.and_eq_true] at hnull
      rw [eq_null_of_isNull hnull.2]
      rfl
    · rw [toJson_recast loose v]

end

theorem recastFields_keys (loose : Bool) (fs : List (Units × JsVal)) :
    (recastFields loose fs).map Prod.fst = fs.map Prod.fst := by
  rw [← toJsonFields_keys, toJsonFields_recastFields, toJsonFields_keys]

theorem distinct_emptyObject (loose : Bool) : distinct (emptyObject loose) = true := by
  cases loose <;> rfl

mutual

theorem distinct_recast (loose : Bool) : (v : JsVal) → distinct v = true → distinct (recast loose v) = true
  | .undefined, _ | .null, _ | .nonFinite, _ | .bool _, _ | .num _, _ | .str _, _ => rfl
  | .date _, _ => distinct_emptyObject loose
  | .arr xs, h => distinctAll_recastAll loose xs h
  | .obj [], _ => distinct_emptyObject loose
  | .obj (f :: fs), h => by
    rw [distinct, Bool.and_eq_true] at h
    rw [recast, distinct, recastFields_keys, Bool.and_eq_true]
    exact ⟨h.1, distinctFields_recastFields loose (f :: fs) h.2⟩

theorem distinctAll_recastAll (loose : Bool) : (xs : List JsVal) → distinctAll xs = true →
    distinctAll (recastAll loose xs) = true
  | [], _ => rfl
  | x :: xs, h => by
    rw [distinctAll, Bool.and_eq_true] at h
    rw [recastAll, distinctAll, distinct_recast loose x h.1, distinctAll_recastAll loose xs h.2, Bool.and_self]

theorem distinctFields_recastFields (loose : Bool) : (fs : List (Units × JsVal)) → distinctFields fs = true →
    distinctFields (recastFields loose fs) = true
  | [], _ => rfl
  | (k, v) :: fs, h => by
    rw [distinctFields, Bool.and_eq_true] at h
    rw [recastFields, distinctFields, distinctFields_recastFields loose fs h.2, Bool.and_true]
    split_ifs
    · rfl
    · exact distinct_recast loose v h.1

end

/-! What the trip through the column leaves of them. -/

mutual

theorem plain_recast_false : (v : JsVal) → plain (recast false v) = true
  | .undefined | .null | .nonFinite | .bool _ | .num _ | .str _ | .date _ | .obj [] => rfl
  | .arr xs => plainAll_recast_false xs
  | .obj (f :: fs) => plainFields_recast_false (f :: fs)

theorem plainAll_recast_false : (xs : List JsVal) → plainAll (recastAll false xs) = true
  | [] => rfl
  | x :: xs => by rw [recastAll, plainAll, plain_recast_false x, plainAll_recast_false xs, Bool.and_self]

theorem plainFields_recast_false : (fs : List (Units × JsVal)) → plainFields (recastFields false fs) = true
  | [] => rfl
  | (k, v) :: fs => by
    have hdefined : (recast false v).isUndefined = false := by
      cases v with
      | obj fs => cases fs <;> rfl
      | _ => rfl
    rw [recastFields, Bool.false_and, if_neg Bool.false_ne_true, plainFields, hdefined, plain_recast_false v,
      plainFields_recast_false fs]
    rfl

end

theorem rigidFields_iff {fs : List (Units × Json)} :
    rigidFields fs = true ↔ ∀ p ∈ fs, isNull p.2 = false ∧ rigid p.2 = true := by
  induction fs with
  | nil => simp [rigidFields]
  | cons p fs ih =>
    obtain ⟨k, v⟩ := p
    rw [rigidFields, Bool.and_eq_true, Bool.and_eq_true, Bool.not_eq_true', ih, List.forall_mem_cons]

theorem rigidFields_sortByKey (fs : List (Units × Json)) : rigidFields (sortByKey fs) = rigidFields fs := by
  rw [Bool.eq_iff_iff, rigidFields_iff, rigidFields_iff]
  exact forall_congr' fun p => by rw [(sortByKey_perm fs).mem_iff]

mutual

theorem plain_of_rigid : (v : JsVal) → rigid (toJson v) = true → plain v = true
  | .undefined, _ | .null, _ | .nonFinite, _ | .bool _, _ | .num _, _ | .str _, _ => rfl
  | .date _, h => h
  | .arr xs, h => plainAll_of_rigid xs h
  | .obj fs, h => by
    rw [toJson, rigid, rigidFields_sortByKey, Bool.and_eq_true] at h
    exact plainFields_of_rigid fs h.2

theorem plainAll_of_rigid : (xs : List JsVal) → rigidAll (toJsonAll xs) = true → plainAll xs = true
  | [], _ => rfl
  | x :: xs, h => by
    rw [toJsonAll, rigidAll, Bool.and_eq_true] at h
    rw [plainAll, plain_of_rigid x h.1, plainAll_of_rigid xs h.2, Bool.and_self]

theorem plainFields_of_rigid : (fs : List (Units × JsVal)) → rigidFields (toJsonFields fs) = true → plainFields fs = true
  | [], _ => rfl
  | (k, v) :: fs, h => by
    rw [toJsonFields, rigidFields, Bool.and_eq_true, Bool.and_eq_true, Bool.not_eq_true'] at h
    have hdefined : v.isUndefined = false := by
      cases v with
      | undefined => exact absurd h.1.1 (by decide)
      | _ => rfl
    rw [plainFields, hdefined, plain_of_rigid v h.1.2, plainFields_of_rigid fs h.2]
    rfl

end

mutual

theorem rigid_of_plain_recast : (v : JsVal) → plain (recast true v) = true → rigid (toJson v) = true
  | .undefined, _ | .null, _ | .nonFinite, _ | .bool _, _ | .num _, _ | .str _, _ => rfl
  | .date _, h => h
  | .arr xs, h => rigidAll_of_plain_recast xs h
  | .obj [], h => absurd h (by decide)
  | .obj (f :: fs), h => by
    have hne : (sortByKey (toJsonFields (f :: fs))).isEmpty = false := by
      rw [List.isEmpty_eq_false_iff, ← List.length_pos_iff, (sortByKey_perm _).length_eq, toJsonFields_eq_map,
        List.length_map]
      exact Nat.succ_pos _
    rw [toJson, rigid, rigidFields_sortByKey, hne, rigidFields_of_plain_recast (f :: fs) h]
    rfl

theorem rigidAll_of_plain_recast : (xs : List JsVal) → plainAll (recastAll true xs) = true → rigidAll (toJsonAll xs) = true
  | [], _ => rfl
  | x :: xs, h => by
    rw [recastAll, plainAll, Bool.and_eq_true] at h
    rw [toJsonAll, rigidAll, rigid_of_plain_recast x h.1, rigidAll_of_plain_recast xs h.2, Bool.and_self]

theorem rigidFields_of_plain_recast : (fs : List (Units × JsVal)) → plainFields (recastFields true fs) = true →
    rigidFields (toJsonFields fs) = true
  | [], _ => rfl
  | (k, v) :: fs, h => by
    rw [recastFields, plainFields, Bool.true_and, Bool.and_eq_true, Bool.and_eq_true] at h
    by_cases hnull : isNull (toJson v) = true
    · rw [if_pos hnull] at h
      exact absurd h.1.1 (by decide)
    · rw [if_neg hnull] at h
      rw [Bool.not_eq_true] at hnull
      rw [toJsonFields, rigidFields, rigid_of_plain_recast v h.1.2, rigidFields_of_plain_recast fs h.2, hnull]
      rfl

end

end Captivo.Audit
