import CaptivoAccess.Lib.Run
import CaptivoAccess.Spec.GuacView

/-! What a viewer without control can make guacd read. The gate decides on the
first opcode of a message and forwards all of it, so the stream stays free of input
as long as the messages it lets through are whole instructions that are all `sync`
or `nop`. -/

namespace Captivo.Guac

open Lib.Utf8 Lib.Parse Lib.Run

/-- Whole instructions, each of which a viewer may always send. -/
def Liveness (data : Bytes) : Prop :=
  instruction.Whole data ∧ ∀ op ∈ opcodes data, viewerUpstreamAlways op = true

instance (data : Bytes) : Decidable (Liveness data) :=
  inferInstanceAs (Decidable (instruction.Whole data ∧ ∀ op ∈ opcodes data, viewerUpstreamAlways op = true))

/-- A message sent without control whose first opcode passes the gate is liveness all through. -/
def Orderly (viewer : String) (s : ViewState) : ViewEvent → Prop
  | .message data =>
    viewerInputAllowed s.controlOwner viewer = false →
      viewerUpstreamAlways (instructionOpcode data) = true → Liveness data
  | _ => True

/-- Every write made without control is liveness. -/
def Quiet (s : ViewState) : Prop := ∀ w ∈ s.written, w.hasControl = false → Liveness w.data

theorem quiet_step (viewer : String) (s : ViewState) (e : ViewEvent) (hq : Quiet s) (ho : Orderly viewer s e) :
    Quiet (serveGuacView viewer s e) := by
  cases e with
  | setControl owner => exact hq
  | releaseControl owner => exact hq
  | message data =>
    simp only [serveGuacView]
    split_ifs with hf
    · intro w hw hc
      rcases List.mem_append.mp hw with hw | hw
      · exact hq w hw hc
      · obtain rfl := List.mem_singleton.mp hw
        have hcontrol : viewerInputAllowed s.controlOwner viewer = false := hc
        -- without control the gate can only have passed the opcode
        apply ho hcontrol
        simpa only [viewerMayForward, hcontrol, Bool.or_false] using hf
    · exact hq

theorem watchedBytes_of_quiet {s : ViewState} (hq : Quiet s) :
    ∀ op ∈ opcodes (watchedBytes s), viewerUpstreamAlways op = true := by
  have hw : ∀ c ∈ (s.written.filter fun w => !w.hasControl).map (·.data), Liveness c := by
    intro c hc
    obtain ⟨w, hm, rfl⟩ := List.mem_map.mp hc
    obtain ⟨hm, hn⟩ := List.mem_filter.mp hm
    exact hq w hm (by simpa using hn)
  intro op hop
  unfold opcodes watchedBytes at hop
  rw [(instruction.whole_flatten instruction_stable _ fun c hc => (hw c hc).1).2] at hop
  obtain ⟨i, hi, rfl⟩ := List.mem_map.mp hop
  obtain ⟨c, hc, hi⟩ := List.mem_flatMap.mp hi
  exact (hw c hc).2 _ (List.mem_map_of_mem hi)

end Captivo.Guac
