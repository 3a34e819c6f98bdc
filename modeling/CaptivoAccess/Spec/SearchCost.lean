import CaptivoAccess.Spec.RecSearch

/-! The chunks that a search decrypts (`searchStore` in `connector/recsearch.go`, `Read` in
`connector/recstore.go`). `Read` decrypts a whole stream before the search looks at the
first of its chunks. -/

namespace Captivo.Search

open Lib.Utf8 Lib.FileTree Captivo.RecStore Captivo.Proxy
open Captivo.RecFetch (Text)

/-- The chunks of a keystroke stream that `Read` gives to `open`. -/
def Store.opened (st : Store) (tenantID key : Bytes) : ℕ :=
  match dir st.root ⟨tenantID, key, ascii "keys"⟩ with
  | .error _ => 0
  | .ok d =>
    match st.tree.readDir d with
    | none => 0
    | some entries => (entries.filter fun e => (chunkOf (fun _ => some []) 0 e).isSome).length

variable (rt : Runtime) (st : Store)

/-- `searchKeys`, with the number of chunks that were decrypted. -/
def searchKeysCounted (tenantID : Bytes) (query needle : Text) : ℕ → List Bytes → Option RecSearchResponse × ℕ
  | _, [] => (some ⟨[], false⟩, 0)
  | 0, _ :: _ => (some ⟨[], true⟩, 0)
  | budget + 1, key :: keys =>
    match st.keys tenantID key with
    | .error _ =>
      let rest := searchKeysCounted tenantID query needle (budget + 1) keys
      (rest.1, st.opened tenantID key + rest.2)
    | .ok chunks =>
      match searchChunks rt query needle key (budget + 1) chunks with
      | none => (none, st.opened tenantID key)
      | some scan =>
        let rest := searchKeysCounted tenantID query needle scan.budget keys
        (rest.1.map fun resp => ⟨scan.hit.toList ++ resp.found, scan.truncated || resp.truncated⟩,
          st.opened tenantID key + rest.2)

def budgetOf (req : RecSearchRequest) : ℕ := if req.maxDecrypt ≤ 0 then 500 else req.maxDecrypt.toNat

/-- `searchStore`, with the number of chunks that were decrypted. -/
def searchStoreCounted (req : RecSearchRequest) : Option RecSearchResponse × ℕ :=
  let needle := rt.uni.toLower (trimSpace req.query)
  if needle = [] then (some ⟨[], false⟩, 0)
  else searchKeysCounted rt st req.tenantID req.query needle (budgetOf req) req.recordingKeys

end Captivo.Search
