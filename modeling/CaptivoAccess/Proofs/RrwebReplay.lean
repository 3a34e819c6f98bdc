import CaptivoAccess.Proofs.RrwebOwner
import CaptivoAccess.Sanity.RecRead
import CaptivoAccess.Sanity.Replay

/-! The way of a web recording from the page back to the console. A batch is stored as the
page wrote it, with a line feed behind it, and is read back line by line: a batch that has
a line feed of its own, between two tokens, is read as two texts. -/

namespace Captivo.Replay

open Lib.Utf8 Lib.JsonText Lib.JsonRead Lib.FileTree Captivo.RecStore Captivo.Rrweb

/-! Storing. -/

/-- A post with a batch whose events field is the text of an array, with any white space between its tokens. -/
structure Sending where
  post : Post
  batch : Batch
  text : Text
  events : List Json
  bytes : batch.events = encodeText text
  brackets : Bracketed text
  value : IsText text (.arr events)

/-- The post brings the batch for the recording to the connector, which stores it. -/
def Stored (dep : Deployment) (c key : Bytes) (w : World) (p : Post) (batch : Batch) : Prop :=
  p.batch dep = some batch ∧ p.connectorID = c ∧ batch.recordingKey = key ∧ p.reaches = true ∧
    (append (dep.sealWith c p.nonce) p.now (dep.root c) (w.store c) ⟨dep.tenantID, key, rrweb⟩ batch.seq
      (batch.events ++ [10])).2.isOk = true

/-- All posts of a run do. -/
def StoredRun (dep : Deployment) (c key : Bytes) : World → List Sending → Prop
  | _, [] => True
  | w, x :: rest => Stored dep c key w x.post x.batch ∧ StoredRun dep c key (step dep w x.post) rest

theorem store_step {dep : Deployment} {c key : Bytes} {w : World} {p : Post} {batch : Batch} (h : Stored dep c key w p batch) :
    (step dep w p).store c = (append (dep.sealWith c p.nonce) p.now (dep.root c) (w.store c) ⟨dep.tenantID, key, rrweb⟩ batch.seq
      (batch.events ++ [10])).1 := by
  obtain ⟨hbatch, rfl, rfl, hreaches, -⟩ := h
  rw [step_of_batch dep w hbatch]
  exact store_taken hreaches

/-- The numbers of the batches grow, from zero on. -/
def Increasing (batches : List Batch) : Prop :=
  (∀ b ∈ batches, 0 ≤ b.seq ∧ b.seq < 2 ^ 63) ∧ batches.Pairwise fun a b => a.seq < b.seq

section Run

variable {dep : Deployment} {c key : Bytes} {cipher : Cipher} {d : Path}

def chunk (batch : Batch) : ℕ × Bytes := (batch.seq.toNat, batch.events ++ [10])

theorem lists_step (hcipher : dep.sealWith c = cipher.sealWith) (hd : dir (dep.root c) ⟨dep.tenantID, key, rrweb⟩ = .ok d) {w : World}
    {p : Post} {batch : Batch} (h : Stored dep c key w p batch) {l : List (ℕ × Bytes)} (hl : Lists cipher (w.store c) d l)
    (hseq : 0 ≤ batch.seq ∧ batch.seq < 2 ^ 63) (hlt : ∀ x ∈ l, x.1 < batch.seq.toNat) :
    Lists cipher ((step dep w p).store c) d (l ++ [chunk batch]) := by
  obtain ⟨n, hn⟩ := Int.eq_ofNat_of_zero_le hseq.1
  have hok := h.2.2.2.2
  rw [store_step h]
  rw [hcipher, hn] at hok ⊢
  have hnat : batch.seq.toNat = n := by rw [hn, Int.toNat_natCast]
  rw [hnat] at hlt
  rw [chunk, hnat]
  exact hl.append hd p.nonce p.now (by omega) hlt hok

theorem lists_run (hcipher : dep.sealWith c = cipher.sealWith) (hd : dir (dep.root c) ⟨dep.tenantID, key, rrweb⟩ = .ok d) {w : World}
    {run : List Sending} (h : StoredRun dep c key w run) {l : List (ℕ × Bytes)} (hl : Lists cipher (w.store c) d l)
    (hseq : Increasing (run.map (·.batch))) (hlt : ∀ x ∈ l, ∀ b ∈ run.map (·.batch), x.1 < b.seq.toNat) :
    Lists cipher (((run.map (·.post)).foldl (step dep) w).store c) d (l ++ (run.map (·.batch)).map chunk) := by
  induction run generalizing w l with
  | nil => simpa using hl
  | cons x run ih =>
    simp only [List.map_cons] at hseq hlt ⊢
    obtain ⟨hrange, hgrow⟩ := hseq
    obtain ⟨hfirst, hgrow⟩ := List.pairwise_cons.1 hgrow
    have hstep := lists_step hcipher hd h.1 hl (hrange x.batch List.mem_cons_self) fun y hy => hlt y hy x.batch List.mem_cons_self
    have hrun := ih h.2 hstep ⟨fun b hb => hrange b (List.mem_cons_of_mem _ hb), hgrow⟩ ?_
    · rwa [List.append_assoc] at hrun
    · intro y hy b hb
      rcases List.mem_append.1 hy with hy | hy
      · exact hlt y hy b (List.mem_cons_of_mem _ hb)
      · obtain rfl := List.mem_singleton.1 hy
        have hlt := hfirst b hb
        have hpos := (hrange x.batch List.mem_cons_self).1
        show x.batch.seq.toNat < b.seq.toNat
        omega

theorem fetched_run (hcipher : dep.sealWith c = cipher.sealWith) (hd : dir (dep.root c) ⟨dep.tenantID, key, rrweb⟩ = .ok d) {w : World}
    (hnew : (w.store c).missing d = true) {run : List Sending} (h : StoredRun dep c key w run)
    (hseq : Increasing (run.map (·.batch))) :
    fetched cipher.openChunk (dep.root c) (((run.map (·.post)).foldl (step dep) w).store c) ⟨dep.tenantID, key, rrweb⟩ =
      (run.map (·.batch)).flatMap fun b => b.events ++ [10] := by
  have hlists := lists_run hcipher hd h (lists_of_missing cipher hnew) hseq (by simp)
  rw [List.nil_append] at hlists
  have hsorted : ((run.map (·.batch)).map chunk).Pairwise fun x x' => x.1 < x'.1 := by
    refine List.pairwise_map.2 (hseq.2.imp_of_mem fun ha hb hlt => ?_)
    have hpos := (hseq.1 _ ha).1
    show Int.toNat _ < Int.toNat _
    omega
  rw [fetched, hlists.read_eq hd hsorted]
  simp [chunk, List.flatMap, Function.comp_def]

end Run

theorem assembleEvents_lined (engine : Engine) {run : List Sending} (hline : ∀ x ∈ run, '\n' ∉ x.text)
    (hsize : ∀ x ∈ run, x.events.length ≤ engine.maxArguments) :
    assembleEvents engine (encodeText (lined (run.map (·.text)))) = run.flatMap (·.events) := by
  have hbrackets : ∀ x ∈ run, Bracketed x.text := fun x _ => x.brackets
  rw [assembleEvents, engine.utf8_encodeText, parsedLines_lined (List.forall_mem_map.2 hline) (List.forall_mem_map.2 hbrackets),
    List.map_map, List.flatMap_map]
  refine List.flatMap_congr fun x hx => ?_
  rw [Function.comp_apply, parse_of_isText x.value]
  exact if_pos (hsize x hx)

/-- Batches without a line feed between their tokens, and with no more events than the engine takes as arguments, come back as
all their events in order. -/
theorem replayed_events (engine : Engine) (dep : Deployment) (c key : Bytes) (cipher : Cipher) (hcipher : dep.sealWith c = cipher.sealWith)
    (d : Path) (hd : dir (dep.root c) ⟨dep.tenantID, key, rrweb⟩ = .ok d) (w : World) (hnew : (w.store c).missing d = true)
    (run : List Sending) (hrun : StoredRun dep c key w run) (hseq : Increasing (run.map (·.batch)))
    (hline : ∀ x ∈ run, '\n' ∉ x.text) (hsize : ∀ x ∈ run, x.events.length ≤ engine.maxArguments) :
    assembleEvents engine (fetched cipher.openChunk (dep.root c) (((run.map (·.post)).foldl (step dep) w).store c)
      ⟨dep.tenantID, key, rrweb⟩) = run.flatMap (·.events) := by
  have hraw : (run.map (·.batch)).flatMap (fun b => b.events ++ [10]) = encodeText (lined (run.map (·.text))) := by
    rw [encodeText_lined, List.flatMap_map, List.flatMap_map]
    exact List.flatMap_congr fun x _ => congrArg (· ++ [10]) x.bytes
  rw [fetched_run hcipher hd hnew hrun hseq, hraw, assembleEvents_lined engine hline hsize]

/-! A store without encryption, for batches that come as their events alone. -/

def bare : Cipher := ⟨fun _ plain => some plain, some, RecStore.unsealed_opens⟩

def bareDeployment : Deployment := ⟨ascii "t", fun _ => [], fun _ => bare.sealWith, fun body => some ⟨ascii "k", body.length, body⟩⟩

def barePost (body : Bytes) : Post := ⟨ascii "u", ascii "s", ascii "h", ascii "c", true, some body, true, 0, [], true⟩

def bareSending (inner : String) (events : List Json) (h : IsText ('[' :: (inner.toList ++ [']'])) (.arr events)) : Sending where
  post := barePost (encodeText ('[' :: (inner.toList ++ [']'])))
  batch := ⟨ascii "k", (encodeText ('[' :: (inner.toList ++ [']']))).length, encodeText ('[' :: (inner.toList ++ [']']))⟩
  text := '[' :: (inner.toList ++ [']'])
  events := events
  bytes := rfl
  brackets := ⟨inner.toList, rfl⟩
  value := h

/-- What comes back. -/
def bareReplay (run : List Sending) : List Json :=
  assembleEvents plainEngine (fetched bare.openChunk [] ((((run.map (·.post)).foldl (step bareDeployment)
    noRecordings).store (ascii "c"))) ⟨ascii "t", ascii "k", rrweb⟩)

def oneEvent : Sending := bareSending "true" [.bool true] ⟨[], .array rfl (.lastElement (.atom rfl) rfl), rfl⟩

def twoEvents : Sending :=
  bareSending "null ,\tfalse" [.null, .bool false] ⟨[], .array rfl (.element (.atom rfl) rfl (.lastElement (.atom rfl) rfl)), rfl⟩

theorem replayed_events_two : bareReplay [oneEvent, twoEvents] = [.bool true, .null, .bool false] :=
  replayed_events plainEngine bareDeployment (ascii "c") (ascii "k") bare rfl [ascii "t", ascii "k", rrweb] (by decide +kernel) noRecordings
    (by decide +kernel) [oneEvent, twoEvents]
    ⟨⟨rfl, rfl, rfl, rfl, by decide +kernel⟩, ⟨rfl, rfl, rfl, rfl, by decide +kernel⟩, trivial⟩
    ⟨by decide +kernel, by decide +kernel⟩ (by decide +kernel) (by decide +kernel)

def twoLines : Sending :=
  bareSending "null,\nfalse" [.null, .bool false] ⟨[], .array rfl (.element (.atom rfl) rfl (.lastElement (.atom rfl) rfl)), rfl⟩

/-- A line feed between two events loses both. -/
theorem line_feed_loses_events :
    StoredRun bareDeployment (ascii "c") (ascii "k") noRecordings [twoLines] ∧ Increasing [twoLines.batch] ∧
      twoLines.events.length = 2 ∧ bareReplay [twoLines] = [] := by
  refine ⟨⟨⟨rfl, rfl, rfl, rfl, by decide +kernel⟩, trivial⟩, ⟨by decide +kernel, by decide +kernel⟩, rfl, ?_⟩
  exact List.eq_nil_of_length_eq_zero (by decide +kernel)

end Captivo.Replay
