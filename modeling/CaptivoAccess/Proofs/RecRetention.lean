import CaptivoAccess.Sanity.RecErasure

/-! When retention removes the row of a recording that is gone. The manager removes rows by
age, for the whole tenant, when any connector reports a sweep and when the cron runs. That
is right if every connector has swept past the row and no erasure is owed. -/

namespace Captivo.Erasure

open Lib.Utf8 Lib.FileTree Captivo.RecStore

/-- The index as retention finds it: an ack's confirmations come before its sweep. -/
def indexBefore (w : World) : Event → List Row
  | .ack i =>
    match w.acks[i]? with
    | none => w.rows
    | some (_, ack) => confirmErasures ack.purgedKeys w.rows
  | _ => w.rows

/-- The rows that the retention of an ack or of the cron removes. -/
def retired (dep : Deployment) (w : World) : Event → List Row
  | .ack i => (indexBefore w (.ack i)).filter (· ∉ (step dep w (.ack i)).rows)
  | .cron => (indexBefore w .cron).filter (· ∉ (step dep w .cron).rows)
  | _ => []

/-- The row is past the window, by the time that the step goes by. -/
def Due (w : World) (row : Row) : Event → Prop
  | .ack i => 0 < w.retentionDays ∧ row.lastEventAt < cutoffAt w.now w.retentionDays ∧
      ∃ c ack, w.acks[i]? = some (c, ack) ∧ 0 < ack.retentionRemoved
  | .cron => 0 < w.retentionDays ∧ row.startedAt < cutoffAt w.now w.retentionDays
  | _ => False

/-- Every connector that stored a chunk has swept with a later cutoff, and the index is not behind the
time of a directory of the recording. -/
def SweptPast (dep : Deployment) (w : World) (row : Row) : Prop :=
  row.recordingKey ≠ [46] ∧ ∀ c ∈ w.stored, (∃ mark, w.swept c = some mark ∧ row.lastEventAt < mark) ∧
    ∀ d m, recDir (dep.root c) dep.tenantID row.recordingKey = .ok d →
      (w.store c).nodes.lookup d = some (.dir m) → m ≤ row.lastEventAt

/-- Retention finds no pending erasure and no row that a sweep has not passed. -/
def Settled (dep : Deployment) (w : World) (e : Event) : Prop :=
  ∀ row ∈ indexBefore w e, Due w row e → SweptPast dep w row ∧ ∀ r ∈ indexBefore w e, r.purgePendingAt = none

theorem due_of_retired {dep : Deployment} {w : World} {e : Event} {row : Row} (h : row ∈ retired dep w e) :
    row ∈ indexBefore w e ∧ Due w row e := by
  cases e with
  | ack i =>
    obtain ⟨hrow, hgone⟩ := List.mem_filter.1 h
    refine ⟨hrow, ?_⟩
    rw [decide_eq_true_eq] at hgone
    cases hack : w.acks[i]? with
    | none =>
      simp only [step, indexBefore, hack] at hrow hgone
      exact absurd hrow hgone
    | some ca =>
      obtain ⟨c, ack⟩ := ca
      simp only [step, indexBefore, hack, mem_erasureAck] at hrow hgone
      obtain ⟨hremoved, hdays, hold⟩ := not_not.1 fun hyoung => hgone ⟨hrow, hyoung⟩
      exact ⟨hdays, hold, c, ack, hack, hremoved⟩
  | cron =>
    obtain ⟨hrow, hgone⟩ := List.mem_filter.1 h
    rw [decide_eq_true_eq, step, mem_recordingRetention] at hgone
    exact ⟨hrow, not_not.1 fun hyoung => hgone ⟨hrow, hyoung⟩⟩
  | _ => exact absurd h List.not_mem_nil

theorem eq_base_of_recDir {dep : Deployment} {c : String} {key : Bytes} {d : Path} (hkey : key ≠ [46])
    (h : recDir (dep.root c) dep.tenantID key = .ok d) : d = base dep c ++ [key] := by
  obtain ⟨-, -, rfl⟩ := recDir_ok h
  rw [names_of_ne dep.tenant_ne, names_of_ne hkey, base]

/-- Bytes that are on a disk keep their directory there, and a sweep leaves no directory that is older. -/
theorem not_stores_of_sweptPast {dep : Deployment} {w : World} {row : Row} (hcons : Consistent dep w)
    (h : SweptPast dep w row) (c : String) : ¬ Stores dep w c row.recordingKey := by
  rintro ⟨d, hd, p, content, hp, hfile⟩
  obtain ⟨⟨mark, hmark, hlate⟩, htime⟩ := h.2 c (hcons.stored c p content hfile)
  obtain rfl := eq_base_of_recDir h.1 hd
  obtain ⟨a, b, r, rfl⟩ := hcons.deep c p content hfile
  -- the file lies strictly below the directory of the recording
  obtain ⟨rest, hrest⟩ := hp
  have hdir : (w.store c).view (base dep c ++ [row.recordingKey]) = some none := by
    refine Tree.view_of_append _ (r := rest) ?_ ?_
    · rw [hrest, hfile]
      simp
    · rintro rfl
      simp at hrest
  obtain ⟨node, hnode, hkind⟩ := Option.map_eq_some_iff.1 hdir
  cases node with
  | file content' => cases hkind
  | dir m =>
    have hyoung := (hcons.swept c mark hmark).2 _ m hnode
    have hold := htime _ m hd hnode
    omega

/-- A session of the site that records one chunk and ends. -/
def recorded (siteId : String) (key : Bytes) : List Event :=
  [.openSession siteId key, .write 0 .guac 0 [1], .report 0 false, .closeSession 0]

def day : ℕ := 24 * 60 * 60 * 1000

/-- One recording on each connector, a window of thirty days, and thirty-one days. -/
def monthOld : List Event :=
  recorded "crm" (ascii "r1") ++ [.move "wiki" (some "c2")] ++ recorded "wiki" (ascii "r2") ++
    [.configure 30, .wait (31 * day) fun _ => 31 * day]

/-- Both connectors sweep before an ack arrives. -/
def bothSwept : List Event := monthOld ++ [.push "c1", .apply 0, .push "c2", .apply 0]

theorem settled_bothSwept : Settled acme (run acme twoConnectors bothSwept) (.ack 0) := by
  have hrows : ∀ row ∈ indexBefore (run acme twoConnectors bothSwept) (.ack 0),
      row.recordingKey ≠ [46] ∧ row.lastEventAt = 0 ∧ row.purgePendingAt = none := by decide +kernel
  have hstores : ∀ c ∈ (run acme twoConnectors bothSwept).stored,
      (run acme twoConnectors bothSwept).swept c = some (day : ℤ) ∧
      ∀ row ∈ indexBefore (run acme twoConnectors bothSwept) (.ack 0),
        ((run acme twoConnectors bothSwept).store c).nodes.lookup (base acme c ++ [row.recordingKey]) = none := by
    decide +kernel
  intro row hrow _
  obtain ⟨hkey, htime, -⟩ := hrows row hrow
  refine ⟨⟨hkey, fun c hc => ?_⟩, fun r hr => (hrows r hr).2.2⟩
  obtain ⟨hswept, hgone⟩ := hstores c hc
  refine ⟨⟨day, hswept, by rw [htime]; decide⟩, fun d m hd hdir => ?_⟩
  rw [eq_base_of_recDir hkey hd, hgone row hrow] at hdir
  cases hdir

/-- The second connector is away, and what it stores is to be erased. The first one sweeps. -/
def firstSwept : List Event := monthOld ++ [.request (ascii "r2"), .push "c1", .apply 0]

end Captivo.Erasure
