import PicoRecorder.PiZero.Waits
/-!
# InTime — a wait that is answered before its deadline

`InTime L type deadline I`: in a state of `I n` at most `n` reads are missing until a frame of the type has been read,
and the clock stays before the deadline until then.  Such a wait returns the first frame of its type, in as many turns
as there are frames and reads.
-/
namespace PicoRecorder
namespace PiZero

open Lib
open Pico (Frame MsgType)

variable {S σ : Type} {L : Link σ} {type : MsgType} {deadline : Int} {I : Nat → List Frame → σ → Prop}

structure InTime (L : Link σ) (type : MsgType) (deadline : Int) (I : Nat → List Frame → σ → Prop) : Prop where
  before : ∀ {n frames w}, I n frames w → (L.clock w).1 < deadline
  steady : ∀ {n frames w}, I n frames w → (L.clock w).1 ≤ (L.clock (L.clock w).2).1
  clock : ∀ {n frames w}, I n frames w → I n frames (L.clock w).2
  uncancelled : ∀ {n frames w}, I n frames w → (L.cancelled w).1 = false
  cancelled : ∀ {n frames w}, I n frames w → I n frames (L.cancelled w).2
  read : ∀ {n frames w}, I (n + 1) frames w → (∀ f ∈ frames, f.type ≠ type.byte) →
    ∃ new, (L.read w).1 = .data new ∧ I n (frames ++ new) (L.read w).2
  answered : ∀ {frames w}, I 0 frames w → ∃ f ∈ frames, f.type = type.byte
  fine : ∀ {n frames w}, I n frames w → ∀ f ∈ frames, requireNotError f = .ok f
  turns : ∀ {n frames w}, I n frames w → n + frames.length < L.patience

namespace Transport

variable (hI : InTime L type deadline I)
include hI

/-- Without a pending frame, the reads go on until one comes. -/
theorem receiveLoop_inTime {late : Int} (hlate : deadline ≤ late) {deferred : List Frame}
    (hdeferred : ∀ f ∈ deferred, f.type ≠ type.byte) : ∀ (k n : Nat) (s : Heap S σ), n < k → s.pending = [] →
      I n deferred s.link →
        wp (receiveLoop L late k) (fun frame t => ∃ m, I m (deferred ++ frame :: t.pending) t.link) (fun _ _ => False) s
  | 0, _, _, hk, _, _ => absurd hk (Nat.not_lt_zero _)
  | k + 1, 0, s, _, _, h => by
    obtain ⟨f, hmem, htype⟩ := hI.answered h
    exact absurd htype (hdeferred f hmem)
  | k + 1, n + 1, s, hk, hpending, h => by
    unfold receiveLoop
    rw [wp_bind]
    show wp (if (L.cancelled s.link).1 then _ else _) _ _ { s with link := (L.cancelled s.link).2 }
    rw [hI.uncancelled h, if_neg (by decide)]
    obtain ⟨new, hread, hnew⟩ := hI.read (hI.cancelled h) hdeferred
    rw [wp_streamRead]
    simp only [hread]
    rw [wp_bind]
    show wp _ _ _ (Heap.mk (s.pending ++ new) s.session (L.read (L.cancelled s.link).2).2 s.history)
    rw [hpending, List.nil_append, wp_bind]
    cases new with
    | cons frame rest => exact ⟨n, hnew⟩
    | nil =>
      rw [List.append_nil] at hnew
      show wp (do if (← PiZero.clock L) ≥ late then _ else _) _ _ _
      rw [wp_bind]
      show wp (if (L.clock (L.read (L.cancelled s.link).2).2).1 ≥ late then _ else _) _ _ _
      have hbefore := hI.before hnew
      rw [if_neg (by omega)]
      exact receiveLoop_inTime hlate hdeferred k n _ (Nat.lt_of_succ_lt_succ hk) rfl (hI.clock hnew)

theorem receiveFrame_inTime {timeout : Int} {deferred : List Frame} (hdeferred : ∀ f ∈ deferred, f.type ≠ type.byte)
    {n : Nat} (s : Heap S σ) (hlate : deadline ≤ (L.clock s.link).1 + timeout)
    (h : I n (deferred ++ s.pending) s.link) :
    wp (receiveFrame L timeout) (fun frame t => ∃ m, I m (deferred ++ frame :: t.pending) t.link) (fun _ _ => False)
      s := by
  unfold receiveFrame
  rw [wp_bind]
  unfold popPending
  cases hpending : s.pending with
  | cons frame rest =>
    simp only [wp, hpending]
    rw [hpending] at h
    exact ⟨n, h⟩
  | nil =>
    rw [hpending, List.append_nil] at h
    simp only [wp, hpending]
    show wp (do receiveLoop L ((← PiZero.clock L) + timeout) L.patience) _ _ s
    rw [wp_bind]
    have hturns := hI.turns h
    exact receiveLoop_inTime hI hlate hdeferred _ n _ (by omega) hpending (hI.clock h)

theorem awaitLoop_inTime : ∀ (k n : Nat) (deferred : List Frame) (s : Heap S σ),
    (∀ f ∈ deferred, f.type ≠ type.byte) → L.patience ≤ k + deferred.length → I n (deferred ++ s.pending) s.link →
      wp (awaitLoop L type deadline k)
        (fun frame t => frame.type = type.byte ∧ ∃ m skipped rest, t.pending = skipped ++ rest ∧
          (∀ f ∈ skipped, f.type ≠ type.byte) ∧ I m (deferred ++ skipped ++ frame :: rest) t.link)
        (fun _ _ => False) s
  | 0, n, deferred, s, _, hk, h => by
    have hturns := hI.turns h
    rw [List.length_append] at hturns
    omega
  | k + 1, n, deferred, s, hdeferred, hk, h => by
    unfold awaitLoop
    rw [wp_bind]
    show wp (if deadline - (L.clock s.link).1 ≤ 0 then _ else _) _ _ { s with link := (L.clock s.link).2 }
    have hbefore := hI.before h
    have hsteady := hI.steady h
    rw [if_neg (by omega), wp_bind]
    refine wp_mono (receiveFrame_inTime hI hdeferred { s with link := (L.clock s.link).2 } (by dsimp only; omega)
      (hI.clock h)) ?_ (fun _ _ hfalse => hfalse)
    rintro frame t ⟨m, ht⟩
    rw [hI.fine ht frame (List.mem_append_right _ List.mem_cons_self), checked, wp_bind, wp_pure]
    by_cases htype : frame.type = type.byte
    · rw [if_neg (not_not.2 htype)]
      exact ⟨htype, m, [], t.pending, rfl, by simp, by rwa [List.append_nil]⟩
    · have hmore : ∀ f ∈ deferred ++ [frame], f.type ≠ type.byte := by
        intro f hf
        rcases List.mem_append.1 hf with hf | hf
        · exact hdeferred f hf
        · exact List.mem_singleton.1 hf ▸ htype
      rw [if_pos htype, wp_ensuring]
      refine wp_mono (awaitLoop_inTime k m (deferred ++ [frame]) t hmore ?_ (by simpa using ht)) ?_
        (fun _ _ hfalse => hfalse)
      · rw [List.length_append, List.length_singleton]
        omega
      · rintro answer u ⟨hanswer, m', skipped, rest, hpending, hskipped, hu⟩
        refine ⟨hanswer, m', frame :: skipped, rest, ?_, List.forall_mem_cons.2 ⟨htype, hskipped⟩, ?_⟩
        · exact congrArg (frame :: ·) hpending
        · simpa [Heap.putBack] using hu

/-- **A wait that is answered in time** returns the first frame of its type; the frames passed over are pending
again. -/
theorem awaitFrame_inTime {n : Nat} {timeout : Int} (s : Heap S σ) (hdeadline : deadline = (L.clock s.link).1 + timeout)
    (h : I n s.pending s.link) :
    wp (awaitFrame L type timeout)
      (fun frame t => Untouched s t ∧ frame.type = type.byte ∧ ∃ m skipped rest, t.pending = skipped ++ rest ∧
        (∀ f ∈ skipped, f.type ≠ type.byte) ∧ I m (skipped ++ frame :: rest) t.link)
      (fun _ _ => False) s := by
  have hreturns : wp (awaitFrame L type timeout)
      (fun frame t => frame.type = type.byte ∧ ∃ m skipped rest, t.pending = skipped ++ rest ∧
        (∀ f ∈ skipped, f.type ≠ type.byte) ∧ I m (skipped ++ frame :: rest) t.link) (fun _ _ => False) s := by
    unfold awaitFrame
    rw [wp_bind]
    show wp (awaitLoop L type ((L.clock s.link).1 + timeout) L.patience) _ _ { s with link := (L.clock s.link).2 }
    rw [← hdeadline]
    exact awaitLoop_inTime hI _ n [] _ nofun (Nat.le_add_right _ _) (hI.clock h)
  exact wp_mono (wp_and (untouched_awaitFrame L type timeout s) hreturns) (fun _ _ ht => ht) (fun _ _ ht => ht.2)

end Transport
end PiZero
end PicoRecorder
