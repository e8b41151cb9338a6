import PicoRecorder.Lib.Manifest
import PicoRecorder.PiZero.Feeding
import PicoRecorder.PiZero.Serial
/-!
# Deliveries — which caller gets which frame

A sequence of calls on one transport, each of which may time out, be cancelled or raise.  What a call took and what it
passed over is `Handed`; with the frames of the stream in a manifest, a whole sequence of calls follows from one call.
-/
namespace PicoRecorder
namespace PiZero

open Lib
open Pico (Frame MsgType)
open Playback (isCredit freeOf underrunFreeOf)

section Hands

variable {S σ : Type} {L : Link σ} {I : List Frame → σ → Prop}

/-- A call took some frames and passed over others that it does not select, which are the pending ones again. -/
def Handed (I : List Frame → σ → Prop) (selects : Frame → Prop) (taken : List Frame) (t : Heap S σ) : Prop :=
  ∃ skipped consumed rest, Interleaved skipped taken consumed ∧ t.pending = skipped ++ rest ∧
    (∀ frame ∈ skipped, ¬selects frame) ∧ I (consumed ++ rest) t.link

/-- A frame that the check rejects may go missing. -/
def Spares (I : List Frame → σ → Prop) : Prop :=
  ∀ (before : List Frame) {frame after w e}, requireNotError frame = .error e →
    I (before ++ frame :: after) w → I (before ++ after) w

theorem Spares.behind (h : Spares I) (deferred : List Frame) : Spares (fun frames => I (deferred ++ frames)) := by
  intro before frame after w e he hI
  rw [← List.append_assoc] at hI ⊢
  exact h _ he hI

namespace Handed

variable {selects : Frame → Prop} {taken : List Frame} {t : Heap S σ}

theorem none (h : I t.pending t.link) : Handed I selects [] t := ⟨[], [], t.pending, .nil, rfl, nofun, h⟩

theorem one {frame : Frame} (h : I (frame :: t.pending) t.link) : Handed I selects [frame] t :=
  ⟨[], [frame], t.pending, .take frame .nil, rfl, nofun, h⟩

/-- A frame passed over goes back to the front. -/
theorem skip {frame : Frame} (h : Handed (fun frames => I (frame :: frames)) selects taken t)
    (hframe : ¬selects frame) :
    Handed I selects taken (t.putBack [frame]) := by
  obtain ⟨skipped, consumed, rest, hinterleaved, hpending, hskipped, hI⟩ := h
  refine ⟨frame :: skipped, frame :: consumed, rest, .skip frame hinterleaved, ?_, ?_, hI⟩
  · exact congrArg (frame :: ·) hpending
  · exact List.forall_mem_cons.2 ⟨hframe, hskipped⟩

theorem take {frame : Frame} (h : Handed (fun frames => I (frame :: frames)) selects taken t) :
    Handed I selects (frame :: taken) t := by
  obtain ⟨skipped, consumed, rest, hinterleaved, hpending, hskipped, hI⟩ := h
  exact ⟨skipped, frame :: consumed, rest, .take frame hinterleaved, hpending, hskipped, hI⟩

end Handed

namespace Transport

/-- **A wait for a type** takes the first frame of it and passes over the frames in front, or takes none at all. -/
theorem awaitLoop_hands (type : MsgType) (deadline : Int) : ∀ {I : List Frame → σ → Prop}, Carries L I → Spares I →
    ∀ (k : Nat) (s : Heap S σ), I s.pending s.link →
      wp (awaitLoop L type deadline k)
        (fun frame t => frame.type = type.byte ∧ Handed I (fun f => f.type = type.byte) [frame] t)
        (fun e t => e.leaves = true → I t.pending t.link) s
  | I, hI, hspare, 0, s, h => by rintro ⟨⟩
  | I, hI, hspare, k + 1, s, h => by
    unfold awaitLoop
    rw [wp_bind]
    refine wp_mono (clock_carries hI s h) (fun now t ht => ?_) (fun _ _ h => h.elim)
    dsimp only
    split
    · exact fun _ => ht.2
    rw [wp_bind]
    refine wp_mono (receiveFrame_carries hI _ t ht.2) (fun frame u hu => ?_) (fun e u hu _ => hu.kept)
    rw [wp_bind]
    refine wp_checked (fun passed hpassed => ?_) (fun e he _ => hspare [] he hu.2)
    obtain rfl := requireNotError_self hpassed
    by_cases htype : passed.type = type.byte
    · rw [if_neg (not_not.2 htype)]
      exact ⟨htype, .one hu.2⟩
    · rw [if_pos htype, wp_ensuring]
      refine wp_mono (awaitLoop_hands type deadline (hI.behind [passed]) (hspare.behind [passed]) k u hu.2)
        (fun frame v hv => ⟨hv.1, hv.2.skip htype⟩) (fun e v hv hleaves => ?_)
      rw [if_pos hleaves]
      exact hv hleaves

variable (hI : Carries L I) (hspare : Spares I)
include hI hspare

theorem awaitFrame_hands (type : MsgType) (timeout : Int) (s : Heap S σ) (h : I s.pending s.link) :
    wp (awaitFrame L type timeout)
      (fun frame t => frame.type = type.byte ∧ Handed I (fun f => f.type = type.byte) [frame] t)
      (fun e t => e.leaves = true → I t.pending t.link) s := by
  unfold awaitFrame
  rw [wp_bind]
  exact wp_mono (clock_carries hI s h) (fun now t ht => awaitLoop_hands type _ hI hspare _ t ht.2) nofun

/-- What a handshake took: nothing, or one answer. -/
def Answer (taken : List Frame) : Prop := ∃ frame, taken = [frame] ∧ frame.type = MsgType.modeChanged.byte

/-- **A handshake** takes its answer and nothing else; after a timeout, not even that. -/
theorem setModeAttempts_hands (target : UInt8) (timeout : Int)
    (hwrite : ∀ {frames w}, I frames w → I frames (L.write (Pico.encode (Request.modeSet target).frame) w).2) :
    ∀ (n : Nat) (s : Heap S σ), I s.pending s.link →
      wp (setModeAttempts L target timeout (n + 1))
        (fun _ t => ∃ taken, Handed I (fun f => f.type = MsgType.modeChanged.byte) taken t ∧ Answer taken)
        (fun e t => e.leaves = true → ∃ taken, Handed I (fun f => f.type = MsgType.modeChanged.byte) taken t ∧
          (taken = [] ∨ Answer taken ∧ ∀ message, e ≠ .raised .transportTimeout message)) s := by
  intro n
  induction n with
  | zero | succ n ih =>
    intro s h
    unfold setModeAttempts
    rw [wp_bind]
    refine wp_mono (write_wrote (.modeSet target) s) (fun _ t ht => ?_) (fun e t ht _ => ?_)
    · obtain ⟨-, whole, rfl⟩ := ht
      rw [wp_bind]
      unfold awaitAnswer
      rw [wp_catching, wp_bind]
      refine wp_mono (awaitFrame_hands hI hspare .modeChanged timeout _ (hwrite h)) (fun frame u hu => ?_)
        (fun e u hu => ?_)
      · obtain ⟨htype, hhanded⟩ := hu
        have hanswer : Answer [frame] := ⟨frame, rfl, htype⟩
        rw [wp_pure, wp_bind]
        refine wp_checked (fun answer _ => ?_) (fun e he _ => ⟨[frame], hhanded, .inr ⟨hanswer, ?_⟩⟩)
        · dsimp only
          rw [wp_bind]
          show wp _ _ _ (u.note _)
          split
          · exact ⟨[frame], hhanded, hanswer⟩
          · exact fun _ => ⟨[frame], hhanded, .inr ⟨hanswer, by rintro _ ⟨⟩⟩⟩
        · exact ((plain_validateModeChanged frame).exn he).2
      · cases e with
        | suspended => rintro ⟨⟩
        | raised kind message =>
          have hkept := hu rfl
          cases kind
          case transportTimeout =>
            first
              | exact fun _ => ⟨[], .none hkept, .inl rfl⟩
              | exact ih u hkept
          all_goals exact fun _ => ⟨[], .none hkept, .inl rfl⟩
    · rcases ht.2 with rfl | ⟨-, whole, rfl⟩
      · exact ⟨[], .none h, .inl rfl⟩
      · exact ⟨[], .none (hwrite h), .inl rfl⟩

end Transport
end Hands

/-! ## The waits for credit -/

namespace Playback

variable {σ : Type} {L : Link σ}

/-- The capacity a credit frame reports. -/
def creditOf (frame : Frame) : Nat :=
  if frame.type = MsgType.bufferStatus.byte then freeOf frame else underrunFreeOf frame

/-- A wait for credit that returned took some reports of no capacity and the first report of some. -/
def Credits (capacity : Nat) (taken : List Frame) : Prop :=
  ∃ empty last, taken = empty ++ [last] ∧ (∀ frame ∈ empty, isCredit frame = true ∧ creditOf frame = 0) ∧
    isCredit last = true ∧ creditOf last = capacity ∧ 0 < capacity

/-- One that raised took credit frames only, and on a timeout none that reports capacity. -/
def Unpaid (e : Exn) (taken : List Frame) : Prop :=
  (∀ frame ∈ taken, isCredit frame = true) ∧
    ((∃ message, e = .raised .transportTimeout message) → ∀ frame ∈ taken, creditOf frame = 0)

theorem Credits.cons {capacity : Nat} {taken : List Frame} {frame : Frame} (h : Credits capacity taken)
    (hcredit : isCredit frame = true) (hempty : creditOf frame = 0) : Credits capacity (frame :: taken) := by
  obtain ⟨empty, last, rfl, hzero, hlast⟩ := h
  exact ⟨frame :: empty, last, rfl, List.forall_mem_cons.2 ⟨⟨hcredit, hempty⟩, hzero⟩, hlast⟩

theorem Unpaid.cons {e : Exn} {taken : List Frame} {frame : Frame} (h : Unpaid e taken)
    (hcredit : isCredit frame = true) (hempty : creditOf frame = 0) : Unpaid e (frame :: taken) :=
  ⟨List.forall_mem_cons.2 ⟨hcredit, h.1⟩, fun htimeout => List.forall_mem_cons.2 ⟨hempty, h.2 htimeout⟩⟩

theorem unpaid_nil (e : Exn) : Unpaid e [] := ⟨nofun, fun _ => nofun⟩

theorem unpaid_one {e : Exn} {frame : Frame} (hcredit : isCredit frame = true)
    (htimeout : ∀ message, e ≠ .raised .transportTimeout message) : Unpaid e [frame] :=
  ⟨List.forall_mem_singleton.2 hcredit, fun ⟨message, hmessage⟩ => absurd hmessage (htimeout message)⟩

/-- **A wait for credit** takes credit frames up to the first with some, and passes over the others. -/
theorem awaitCredit_hands (expectedState : UInt8) : ∀ {I : List Frame → σ → Prop}, Carries L I → Spares I →
    ∀ (n : Nat) (s : Heap Playback σ), I s.pending s.link →
      wp (awaitCredit L expectedState n)
        (fun capacity t => ∃ taken, Handed I (fun frame => isCredit frame = true) taken t ∧ Credits capacity taken)
        (fun e t => e.leaves = true →
          ∃ taken, Handed I (fun frame => isCredit frame = true) taken t ∧ Unpaid e taken) s
  | I, hI, hspare, 0, s, h => by rintro ⟨⟩
  | I, hI, hspare, n + 1, s, h => by
    unfold awaitCredit
    rw [wp_bind]
    refine wp_mono (remaining_carries hI none s h) (fun timeout t ht => ?_)
      (fun e t ht _ => ⟨[], .none ht.kept, unpaid_nil e⟩)
    rw [wp_bind]
    refine wp_mono (Transport.receiveFrame_carries hI timeout t ht.2) (fun frame u hu => ?_)
      (fun e u hu _ => ⟨[], .none hu.kept, unpaid_nil e⟩)
    rw [wp_bind]
    refine wp_checked (fun passed hpassed => ?_) (fun e he _ => ⟨[], .none (hspare [] he hu.2), unpaid_nil e⟩)
    obtain rfl := requireNotError_self hpassed
    have ih := fun v => awaitCredit_hands expectedState (hI.behind [passed]) (hspare.behind [passed]) n v
    by_cases hstatus : passed.type = MsgType.bufferStatus.byte
    · have hcredit : isCredit passed = true := by simp [isCredit, hstatus]
      have hcapacity : creditOf passed = freeOf passed := if_pos hstatus
      rw [if_pos hstatus, wp_bind]
      refine wp_checked (fun status hvalid => ?_)
        (fun e he _ => ⟨[passed], .one hu.2, unpaid_one hcredit ((plain_validateBufferStatus passed).exn he).2⟩)
      have hfree := (validateBufferStatus_ok hvalid).2
      dsimp only
      split
      · exact fun _ => ⟨[passed], .one hu.2, unpaid_one hcredit (by rintro _ ⟨⟩)⟩
      split
      · rename_i hpositive
        exact ⟨[passed], .one hu.2, [], passed, rfl, by simp, hcredit, hcapacity.trans hfree.symm, hpositive⟩
      · rename_i hzero
        have hempty : creditOf passed = 0 := by rw [hcapacity, ← hfree]; exact Nat.eq_zero_of_not_pos hzero
        refine wp_mono (ih u hu.2) ?_ ?_
        · rintro capacity v ⟨taken, hhanded, hcredits⟩
          exact ⟨passed :: taken, hhanded.take, hcredits.cons hcredit hempty⟩
        · intro e v hv hleaves
          obtain ⟨taken, hhanded, hunpaid⟩ := hv hleaves
          exact ⟨passed :: taken, hhanded.take, hunpaid.cons hcredit hempty⟩
    rw [if_neg hstatus]
    by_cases hunderrun : passed.type = MsgType.playUnderrun.byte
    · have hcredit : isCredit passed = true := by simp [isCredit, hunderrun]
      have hcapacity : creditOf passed = underrunFreeOf passed := if_neg hstatus
      rw [if_pos hunderrun, wp_bind]
      refine wp_checked (fun underrun hvalid => ?_)
        (fun e he _ => ⟨[passed], .one hu.2, unpaid_one hcredit ((plain_validatePlayUnderrun passed).exn he).2⟩)
      have hfree := validatePlayUnderrun_ok hvalid
      dsimp only
      rw [wp_bind, wp_updateSession]
      split
      · rename_i hpositive
        exact ⟨[passed], .one hu.2, [], passed, rfl, by simp, hcredit, hcapacity.trans hfree.symm, hpositive⟩
      · rename_i hzero
        have hempty : creditOf passed = 0 := by rw [hcapacity, ← hfree]; exact Nat.eq_zero_of_not_pos hzero
        refine wp_mono (ih _ hu.2) ?_ ?_
        · rintro capacity v ⟨taken, hhanded, hcredits⟩
          exact ⟨passed :: taken, hhanded.take, hcredits.cons hcredit hempty⟩
        · intro e v hv hleaves
          obtain ⟨taken, hhanded, hunpaid⟩ := hv hleaves
          exact ⟨passed :: taken, hhanded.take, hunpaid.cons hcredit hempty⟩
    · have hother : ¬isCredit passed = true := by simp [isCredit, hstatus, hunderrun]
      rw [if_neg hunderrun, wp_ensuring]
      refine wp_mono (ih u hu.2) ?_ ?_
      · rintro capacity v ⟨taken, hhanded, hcredits⟩
        exact ⟨taken, hhanded.skip hother, hcredits⟩
      · intro e v hv hleaves
        obtain ⟨taken, hhanded, hunpaid⟩ := hv hleaves
        rw [if_pos hleaves]
        exact ⟨taken, hhanded.skip hother, hunpaid⟩

end Playback

/-! ## The calls -/

/-- The calls that take frames off the stream; a wait for credit is made by a session. -/
inductive Call where
  | awaitFrame (type : MsgType) (timeout : Int)
  | setMode (target timeout retries : Int)
  | receiveFrame (timeout : Int)
  | awaitCredit (session : Playback) (expectedState : UInt8)
  | drainPendingFrames

inductive Reply where
  | frame (frame : Frame)
  | done
  | capacity (freeCapacity : Nat)
  | frames (frames : List Frame)
  deriving DecidableEq

namespace Call

variable {σ : Type} (L : Link σ)

def perform : Call → Py Playback σ Reply
  | .awaitFrame type timeout => do return .frame (← Transport.awaitFrame L type timeout)
  | .setMode target timeout retries => do
    Transport.setMode L target timeout retries
    return .done
  | .receiveFrame timeout => do return .frame (← Transport.receiveFrame L timeout)
  | .awaitCredit session expectedState => do
    updateSession (fun _ => session)
    return .capacity (← Playback.awaitCredit L expectedState L.patience)
  | .drainPendingFrames => do return .frames (← Transport.drainPendingFrames)

/-- What a call passes over nothing of. -/
def selects : Call → Frame → Prop
  | .awaitFrame type _, frame => frame.type = type.byte
  | .setMode _ _ _, frame => frame.type = MsgType.modeChanged.byte
  | .receiveFrame _, _ => True
  | .awaitCredit _ _, frame => isCredit frame = true
  | .drainPendingFrames, _ => True

/-- What a call that answers so has got. -/
def Served : Call → Checked Reply → List Frame → Prop
  | .awaitFrame type _, .ok (.frame frame), taken => taken = [frame] ∧ frame.type = type.byte
  | .awaitFrame _ _, .error _, taken => taken = []
  | .setMode _ _ _, .ok .done, taken => Transport.Answer taken
  | .setMode _ _ _, .error e, taken =>
    taken = [] ∨ Transport.Answer taken ∧ ∀ message, e ≠ .raised .transportTimeout message
  | .receiveFrame _, .ok (.frame frame), taken => taken = [frame]
  | .receiveFrame _, .error _, taken => taken = []
  | .awaitCredit _ _, .ok (.capacity freeCapacity), taken => Playback.Credits freeCapacity taken
  | .awaitCredit _ _, .error e, taken => Playback.Unpaid e taken
  | .drainPendingFrames, .ok (.frames frames), taken => taken = frames
  | _, _, _ => False

variable {L} {I : List Frame → σ → Prop}

/-- **One call**, however it ends: what it got is what it should get, and everything else stays in order. -/
theorem perform_hands (hI : Carries L I) (hspare : Spares I)
    (hwrite : ∀ {frames w} (bytes : List UInt8), I frames w → I frames (L.write bytes w).2) (call : Call)
    (s : Heap Playback σ) (h : I s.pending s.link) :
    wp (call.perform L) (fun reply t => ∃ taken, Handed I call.selects taken t ∧ call.Served (.ok reply) taken)
      (fun e t => e.leaves = true → ∃ taken, Handed I call.selects taken t ∧ call.Served (.error e) taken) s := by
  cases call with
  | awaitFrame type timeout =>
    simp only [perform, wp_bind]
    refine wp_mono (Transport.awaitFrame_hands hI hspare type timeout s h) (fun frame t ht => ?_)
      (fun e t ht hleaves => ⟨[], .none (ht hleaves), rfl⟩)
    exact ⟨[frame], ht.2, rfl, ht.1⟩
  | setMode target timeout retries =>
    simp only [perform, wp_bind]
    unfold Transport.setMode
    split
    · exact fun _ => ⟨[], .none h, .inl rfl⟩
    split
    · exact fun _ => ⟨[], .none h, .inl rfl⟩
    · obtain ⟨n, hn⟩ : ∃ n, (retries + 1).toNat = n + 1 := ⟨retries.toNat, by omega⟩
      rw [hn]
      exact Transport.setModeAttempts_hands hI hspare _ timeout (hwrite _) n s h
  | receiveFrame timeout =>
    simp only [perform, wp_bind]
    refine wp_mono (Transport.receiveFrame_carries hI timeout s h) (fun frame t ht => ?_)
      (fun e t ht _ => ⟨[], .none ht.kept, rfl⟩)
    exact ⟨[frame], .one ht.2, rfl⟩
  | awaitCredit session expectedState =>
    simp only [perform, wp_bind, wp_updateSession]
    exact Playback.awaitCredit_hands expectedState hI hspare _ _ h
  | drainPendingFrames =>
    refine ⟨s.pending, ⟨[], s.pending, [], .all_taken _, rfl, by simp, ?_⟩, rfl⟩
    rw [List.append_nil]
    exact h

end Call

/-! ## A sequence of calls -/

section Sequence

variable {σ : Type}

/-- Call after call; an exception ends the call it comes out of. -/
def runCalls (L : Link σ) : List Call → Py Playback σ (List (Checked Reply))
  | [] => pure []
  | call :: calls => do
    let reply ← attempt (call.perform L)
    return reply :: (← runCalls L calls)

/-- The calls answered so have got what the manifest says: each what it should get, and the earliest of what it selects.
The manifest holds the frames of the stream in order, and the pending ones are those nobody got. -/
structure Delivered (calls : List Call) (replies : List (Checked Reply)) (manifest : Manifest Frame)
    (stream pending : List Frame) : Prop where
  answered : replies.length = calls.length
  wire : manifest.wire = stream
  pending : pending = manifest.undelivered
  owners : manifest.Before calls.length
  served : ∀ (i : Nat) (call : Call) (reply : Checked Reply), calls[i]? = some call → replies[i]? = some reply →
    call.Served reply (manifest.of i)
  earliest : ∀ (i : Nat) (call : Call), calls[i]? = some call → manifest.Earliest i call.selects

namespace Delivered

variable {calls : List Call} {replies : List (Checked Reply)} {manifest : Manifest Frame} {stream pending : List Frame}

theorem nil : Delivered [] [] [] [] [] := by
  constructor <;> simp [Manifest.wire, Manifest.undelivered, Manifest.Before]

theorem arrive (h : Delivered calls replies manifest stream pending) (frames : List Frame) :
    Delivered calls replies (manifest ++ Manifest.fresh frames) (stream ++ frames) (pending ++ frames) where
  answered := h.answered
  wire := by simp [h.wire]
  pending := by simp [h.pending]
  owners := h.owners.arrive frames
  served i call reply hcall hreply := by
    rw [Manifest.of_append, Manifest.of_fresh, List.append_nil]
    exact h.served i call reply hcall hreply
  earliest i call hcall := (h.earliest i call hcall).arrive frames

/-- The next call. -/
theorem next {skipped taken consumed rest : List Frame} {call : Call} {reply : Checked Reply}
    (h : Delivered calls replies manifest stream (consumed ++ rest)) (hinterleaved : Interleaved skipped taken consumed)
    (hskipped : ∀ frame ∈ skipped, ¬call.selects frame) (hserved : call.Served reply taken) :
    ∃ manifest', Delivered (calls ++ [call]) (replies ++ [reply]) manifest' stream (skipped ++ rest) := by
  obtain ⟨manifest', hassigned, hundelivered, hof, hearliest⟩ :=
    Manifest.assign calls.length manifest h.owners h.pending.symm hinterleaved hskipped
  refine ⟨manifest', by simp [h.answered], hassigned.wire.trans h.wire, hundelivered.symm, ?_, ?_, ?_⟩
  · rw [List.length_append]
    exact hassigned.before h.owners
  · intro i c r hc hr
    by_cases hi : i < calls.length
    · rw [List.getElem?_append_left hi] at hc
      rw [List.getElem?_append_left (h.answered ▸ hi)] at hr
      rw [hassigned.of_other (Nat.ne_of_lt hi)]
      exact h.served i c r hc hr
    · rw [List.getElem?_append_right (Nat.le_of_not_lt hi), List.getElem?_singleton] at hc
      rw [List.getElem?_append_right (h.answered ▸ Nat.le_of_not_lt hi), List.getElem?_singleton, h.answered] at hr
      split at hc
      · rename_i heq
        cases hc
        rw [if_pos heq] at hr
        cases hr
        obtain rfl : i = calls.length := by omega
        rw [hof]
        exact hserved
      · cases hc
  · intro i c hc
    by_cases hi : i < calls.length
    · rw [List.getElem?_append_left hi] at hc
      exact hassigned.earliest hi (h.earliest i c hc)
    · rw [List.getElem?_append_right (Nat.le_of_not_lt hi), List.getElem?_singleton] at hc
      split at hc
      · cases hc
        obtain rfl : i = calls.length := by omega
        exact hearliest
      · cases hc

/-- A completed `await_frame` returned the first frame of its type that no earlier call had got. -/
theorem awaitFrame_earliest (h : Delivered calls replies manifest stream pending) {i : Nat} {type : MsgType}
    {timeout : Int} {frame : Frame} (hcall : calls[i]? = some (.awaitFrame type timeout))
    (hreply : replies[i]? = some (.ok (.frame frame))) :
    frame.type = type.byte ∧ ∃ before after, manifest = before ++ (frame, some i) :: after ∧
      ∀ entry ∈ before, entry.1.type = type.byte → ∃ owner < i, entry.2 = some owner := by
  obtain ⟨hof, htype⟩ := h.served i _ _ hcall hreply
  exact ⟨htype, (h.earliest i _ hcall).split hof⟩

end Delivered

/-- While the stream is clean, its frames are delivered, or they are these. -/
def Delivering (calls : List Call) (replies : List (Checked Reply)) (frames : List Frame) (w : Port σ) : Prop :=
  w.Synced ∧ (Clean w.received → ∃ manifest, Delivered calls replies manifest (framesIn w.received) frames)

variable {calls : List Call} {replies : List (Checked Reply)} (P : Serial σ)

theorem delivering_carries : Carries P.link (Delivering calls replies) where
  clock h := h
  cancelled h := h
  read := by
    rintro frames w ⟨hsynced, h⟩
    obtain ⟨hsynced', hgrows⟩ := P.read_grows hsynced
    refine ⟨hsynced', fun hclean => ?_⟩
    obtain ⟨hclean, hframes⟩ := hgrows hclean
    obtain ⟨manifest, hdelivered⟩ := h hclean
    rw [hframes]
    exact ⟨_, hdelivered.arrive _⟩

/-- In a clean stream no frame is rejected. -/
theorem delivering_spares : Spares (Delivering calls replies : List Frame → Port σ → Prop) := by
  rintro before frame after w e he ⟨hsynced, h⟩
  refine ⟨hsynced, fun hclean => ?_⟩
  obtain ⟨manifest, hdelivered⟩ := h hclean
  have hmem : frame ∈ manifest.undelivered := by
    rw [← hdelivered.pending]
    exact List.mem_append_right _ List.mem_cons_self
  have hfine := hclean.2 frame (hdelivered.wire ▸ Manifest.mem_wire hmem)
  rw [he] at hfine
  cases hfine

/-- **One more call** is delivered. -/
theorem attempt_delivering (call : Call) (s : Heap Playback (Port σ)) (h : Delivering calls replies s.pending s.link) :
    wp (attempt (call.perform P.link))
      (fun reply t => Delivering (calls ++ [call]) (replies ++ [reply]) t.pending t.link) (fun e _ => e = .suspended)
      s := by
  have hnext : ∀ {reply : Checked Reply} {taken : List Frame} {t : Heap Playback (Port σ)},
      Handed (Delivering calls replies) call.selects taken t → call.Served reply taken →
        Delivering (calls ++ [call]) (replies ++ [reply]) t.pending t.link := by
    rintro reply taken t ⟨skipped, consumed, rest, hinterleaved, hpending, hskipped, hsynced, hmanifest⟩ hserved
    refine ⟨hsynced, fun hclean => ?_⟩
    obtain ⟨manifest, hdelivered⟩ := hmanifest hclean
    rw [hpending]
    exact hdelivered.next hinterleaved hskipped hserved
  rw [wp_attempt]
  refine wp_mono (Call.perform_hands (delivering_carries P) delivering_spares (fun _ h => h) call s h) ?_ ?_
  · rintro reply t ⟨taken, hhanded, hserved⟩
    exact hnext hhanded hserved
  · intro e t ht
    cases e with
    | suspended => rfl
    | raised kind message =>
      obtain ⟨taken, hhanded, hserved⟩ := ht rfl
      exact hnext hhanded hserved

theorem runCalls_delivering : ∀ (more calls : List Call) (replies : List (Checked Reply)) (s : Heap Playback (Port σ)),
    Delivering calls replies s.pending s.link →
      wp (runCalls P.link more) (fun answers t => Delivering (calls ++ more) (replies ++ answers) t.pending t.link)
        (fun e _ => e = .suspended) s
  | [], calls, replies, s, h => by
    simp only [runCalls, wp_pure, List.append_nil]
    exact h
  | call :: more, calls, replies, s, h => by
    unfold runCalls
    rw [wp_bind]
    refine wp_mono (attempt_delivering P call s h) (fun reply t ht => ?_) (fun _ _ he => he)
    rw [wp_bind]
    refine wp_mono (runCalls_delivering more _ _ t ht) (fun answers u hu => ?_) (fun _ _ he => he)
    rw [List.append_assoc, List.append_assoc] at hu
    exact hu

/-- **Deferred frames are neither lost, duplicated nor reordered.**  Whatever the stream brings and however it is cut
into reads, after any sequence of calls, of which any may have timed out, been cancelled or raised: if the decoder
rejected no candidate of the bytes read and `require_not_error` rejects no frame of them, then every frame was delivered
to exactly one call or is pending, the pending frames are in wire order, and each call got the earliest frames of those
it selects; a completed `await_frame` got the earliest undelivered frame of its type. -/
theorem calls_deliver (calls : List Call) (session : Playback) (world : σ) :
    wp (runCalls P.link calls)
      (fun replies t => Clean t.link.received →
        ∃ manifest, Delivered calls replies manifest (framesIn t.link.received) t.pending ∧
          ∀ (i : Nat) (type : MsgType) (timeout : Int) (frame : Frame), calls[i]? = some (.awaitFrame type timeout) →
            replies[i]? = some (.ok (.frame frame)) →
              frame.type = type.byte ∧ ∃ before after, manifest = before ++ (frame, some i) :: after ∧
                ∀ entry ∈ before, entry.1.type = type.byte → ∃ owner < i, entry.2 = some owner)
      (fun e _ => e = .suspended) ⟨[], session, .opened world, []⟩ := by
  have hopened : Delivering [] [] ([] : List Frame) (Port.opened world) := by
    refine ⟨Port.synced_opened world, fun _ => ⟨[], ?_⟩⟩
    have hframes : framesIn (Port.opened world).received = [] := by
      show IncrementalDecoder.framesOf (Reading.protocolScanner.scan []).1 = []
      rw [Scanner.scan_wait rfl]
      rfl
    rw [hframes]
    exact .nil
  refine wp_mono (runCalls_delivering P calls [] [] _ hopened) (fun replies t ht hclean => ?_) (fun _ _ he => he)
  obtain ⟨manifest, hdelivered⟩ := ht.2 hclean
  exact ⟨manifest, hdelivered, fun i type timeout frame hcall hreply => hdelivered.awaitFrame_earliest hcall hreply⟩

-- One read brings both frames: the answer is deferred in the first wait and handed over by the second call.
example : wp (runCalls (Serial.link ⟨fun reads => (0, reads), fun reads => (false, reads),
      fun reads => (.ok (reads.headD []), reads.tail), fun _ reads => (.written none, reads), 3⟩)
      [.awaitFrame .playReady 1, .receiveFrame 1])
    (fun replies t => replies[0]? = some (.ok (.frame ⟨MsgType.playReady.byte, []⟩)) ∧
      replies[1]? = some (.ok (.frame ⟨MsgType.modeChanged.byte, [0, 0]⟩)) ∧ t.pending = []) (fun _ _ => False)
    ⟨[], .create [] 0 0 none,
      .opened [Pico.encode ⟨MsgType.modeChanged.byte, [0, 0]⟩ ++ Pico.encode ⟨MsgType.playReady.byte, []⟩], []⟩ := by
  decide +kernel

end Sequence
end PiZero
end PicoRecorder
