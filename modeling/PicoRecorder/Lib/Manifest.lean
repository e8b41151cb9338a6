import Mathlib.Data.List.Forall2
/-!
# Manifest — who got which element of a stream

A manifest lists the elements a stream has brought, in the order they came, each with the number of the call that got
it, if one did.  A call passes over some of the undelivered elements and takes others; `Manifest.assign` enters that in
the manifest, and says that it took the earliest of those it selects.
-/
namespace PicoRecorder
namespace Lib

variable {α : Type}

/-- `consumed` is `skipped` and `taken`, interleaved in some way. -/
inductive Interleaved : List α → List α → List α → Prop
  | nil : Interleaved [] [] []
  | skip {skipped taken consumed : List α} (a : α) :
    Interleaved skipped taken consumed → Interleaved (a :: skipped) taken (a :: consumed)
  | take {skipped taken consumed : List α} (a : α) :
    Interleaved skipped taken consumed → Interleaved skipped (a :: taken) (a :: consumed)

namespace Interleaved

theorem all_taken : ∀ l : List α, Interleaved [] l l
  | [] => .nil
  | a :: l => .take a (all_taken l)

end Interleaved

/-- The elements of a stream, each with the call that got it. -/
abbrev Manifest (α : Type) := List (α × Option Nat)

namespace Manifest

def wire (l : Manifest α) : List α := l.map Prod.fst

/-- What no call has got yet. -/
def undelivered (l : Manifest α) : List α := l.filterMap (fun entry => if entry.2 = none then some entry.1 else none)

/-- What a call got. -/
def of (l : Manifest α) (call : Nat) : List α :=
  l.filterMap (fun entry => if entry.2 = some call then some entry.1 else none)

/-- Elements that have just come. -/
def fresh (elements : List α) : Manifest α := elements.map (fun a => (a, none))

/-- No call from this one on has got anything. -/
def Before (call : Nat) (l : Manifest α) : Prop := ∀ entry ∈ l, ∀ owner, entry.2 = some owner → owner < call

/-- Whatever the call selects had been delivered, to it or to an earlier call, wherever it got something behind it. -/
def Earliest (call : Nat) (selects : α → Prop) (l : Manifest α) : Prop :=
  l.Pairwise (fun earlier later => later.2 = some call → selects earlier.1 → ∃ owner ≤ call, earlier.2 = some owner)

/-- The second manifest says of some undelivered elements that the call got them. -/
def Assigned (call : Nat) (l l' : Manifest α) : Prop :=
  List.Forall₂ (fun entry entry' => entry' = entry ∨ entry.2 = none ∧ entry' = (entry.1, some call)) l l'

@[simp] theorem wire_append (l m : Manifest α) : (l ++ m).wire = l.wire ++ m.wire := List.map_append

@[simp] theorem undelivered_append (l m : Manifest α) : (l ++ m).undelivered = l.undelivered ++ m.undelivered :=
  List.filterMap_append

@[simp] theorem of_append (l m : Manifest α) (call : Nat) : (l ++ m).of call = l.of call ++ m.of call :=
  List.filterMap_append

@[simp] theorem wire_fresh (elements : List α) : (fresh elements).wire = elements := by
  simp [wire, fresh, Function.comp_def]

@[simp] theorem undelivered_fresh (elements : List α) : (fresh elements).undelivered = elements := by
  simp [undelivered, fresh, List.filterMap_map]

@[simp] theorem of_fresh (elements : List α) (call : Nat) : (fresh elements).of call = [] := by
  simp [of, fresh]

/-- Every element that came is delivered or not. -/
theorem mem_wire {l : Manifest α} {a : α} (h : a ∈ l.undelivered) : a ∈ l.wire := by
  obtain ⟨entry, hentry, hmem⟩ := List.mem_filterMap.1 h
  split at hmem
  · cases hmem
    exact List.mem_map_of_mem hentry
  · cases hmem

theorem Before.of_eq {call : Nat} {l : Manifest α} (h : Before call l) : l.of call = [] := by
  refine List.filterMap_eq_nil_iff.2 (fun entry hentry => if_neg (fun howner => ?_))
  exact Nat.lt_irrefl call (h entry hentry call howner)

theorem Before.arrive {call : Nat} {l : Manifest α} (h : Before call l) (elements : List α) :
    Before call (l ++ fresh elements) := by
  intro entry hentry owner howner
  rcases List.mem_append.1 hentry with hold | hnew
  · exact h entry hold owner howner
  · obtain ⟨a, -, rfl⟩ := List.mem_map.1 hnew
    cases howner

theorem Before.earliest {call : Nat} {l : Manifest α} (h : Before call l) (selects : α → Prop) :
    Earliest call selects l :=
  List.pairwise_of_forall_mem_list
    (fun _ _ later hlater howner _ => absurd (h later hlater call howner) (Nat.lt_irrefl call))

theorem Earliest.arrive {call : Nat} {selects : α → Prop} {l : Manifest α} (h : Earliest call selects l)
    (elements : List α) :
    Earliest call selects (l ++ fresh elements) := by
  have hnone : ∀ later ∈ fresh elements, later.2 ≠ some call := by
    intro later hlater howner
    obtain ⟨a, -, rfl⟩ := List.mem_map.1 hlater
    cases howner
  refine List.pairwise_append.2 ⟨h, ?_, fun _ _ later hlater howner => absurd howner (hnone later hlater)⟩
  exact List.pairwise_of_forall_mem_list (fun _ _ later hlater howner => absurd howner (hnone later hlater))

/-- A call that got one element got the first of those it selects that no earlier call had got. -/
theorem Earliest.split {call : Nat} {selects : α → Prop} {l : Manifest α} {a : α} (h : Earliest call selects l)
    (hof : l.of call = [a]) : ∃ before after, l = before ++ (a, some call) :: after ∧
      ∀ entry ∈ before, selects entry.1 → ∃ owner < call, entry.2 = some owner := by
  obtain ⟨before, ⟨b, owner⟩, after, rfl, hbefore, hentry, -⟩ := List.filterMap_eq_cons_iff.1 hof
  by_cases howner : owner = some call
  · subst howner
    obtain rfl : b = a := by simpa using hentry
    refine ⟨before, after, rfl, fun entry hmem hselects => ?_⟩
    obtain ⟨-, -, hpairs⟩ := List.pairwise_append.1 h
    obtain ⟨owner, hle, hsome⟩ := hpairs entry hmem _ List.mem_cons_self rfl hselects
    refine ⟨owner, Nat.lt_of_le_of_ne hle (fun heq => ?_), hsome⟩
    have hnone := hbefore entry hmem
    rw [hsome, heq, if_pos rfl] at hnone
    cases hnone
  · rw [if_neg howner] at hentry
    cases hentry

namespace Assigned

variable {call : Nat} {l l' : Manifest α}

theorem refl (l : Manifest α) : Assigned call l l := List.forall₂_same.2 (fun _ _ => .inl rfl)

theorem wire (h : Assigned call l l') : l'.wire = l.wire := by
  induction h with
  | nil => rfl
  | cons hentry _ ih =>
    rcases hentry with rfl | ⟨-, rfl⟩
    · exact congrArg (List.cons _) ih
    · exact congrArg (List.cons _) ih

/-- What other calls got stays theirs. -/
theorem of_other (h : Assigned call l l') {other : Nat} (hother : other ≠ call) : l'.of other = l.of other := by
  induction h with
  | nil => rfl
  | cons hentry _ ih =>
    rcases hentry with rfl | ⟨hnone, rfl⟩
    · simp only [of, List.filterMap_cons] at ih ⊢
      rw [ih]
    · simp only [of, List.filterMap_cons] at ih ⊢
      rw [ih, hnone, if_neg (by simpa using hother.symm), if_neg nofun]

theorem before (h : Assigned call l l') (hbefore : Before call l) : Before (call + 1) l' := by
  induction h with
  | nil => exact nofun
  | cons hentry _ ih =>
    obtain ⟨hfirst, hrest⟩ := List.forall_mem_cons.1 hbefore
    refine List.forall_mem_cons.2 ⟨fun owner howner => ?_, ih hrest⟩
    rcases hentry with rfl | ⟨-, rfl⟩
    · exact Nat.lt_succ_of_lt (hfirst owner howner)
    · cases howner
      exact Nat.lt_succ_self call

/-- Later calls do not come in between. -/
theorem earliest (h : Assigned call l l') {earlier : Nat} (hlt : earlier < call) {selects : α → Prop}
    (hearliest : Earliest earlier selects l) : Earliest earlier selects l' := by
  have howner : ∀ {p q : α × Option Nat}, (q = p ∨ p.2 = none ∧ q = (p.1, some call)) →
      q.2 = some earlier → p.2 = some earlier := by
    rintro p q (rfl | ⟨-, rfl⟩) hq
    · exact hq
    · exact absurd (Option.some.inj hq) (Nat.ne_of_gt hlt)
  have hmem : ∀ {l l' : Manifest α}, Assigned call l l' → ∀ q ∈ l', ∃ p ∈ l, q = p ∨ p.2 = none ∧
      q = (p.1, some call) := by
    intro l l' h
    induction h with
    | nil => exact nofun
    | cons hentry _ ih =>
      refine List.forall_mem_cons.2 ⟨⟨_, List.mem_cons_self, hentry⟩, fun q hq => ?_⟩
      obtain ⟨p, hp, hpq⟩ := ih q hq
      exact ⟨p, List.mem_cons_of_mem _ hp, hpq⟩
  induction h with
  | nil => exact .nil
  | cons hentry htail ih =>
    obtain ⟨hfirst, hrest⟩ := List.pairwise_cons.1 hearliest
    refine List.pairwise_cons.2 ⟨fun later hlater hown hselects => ?_, ih hrest⟩
    obtain ⟨later', hlater', hpair⟩ := hmem htail later hlater
    rcases hentry with rfl | ⟨hnone, rfl⟩
    · exact hfirst later' hlater' (howner hpair hown) hselects
    · obtain ⟨owner, -, hsome⟩ := hfirst later' hlater' (howner hpair hown) hselects
      rw [hnone] at hsome
      cases hsome

end Assigned

/-- **A call enters what it took**: it passed over some undelivered elements, none of which it selects, and took
others. -/
theorem assign (call : Nat) {selects : α → Prop} : ∀ (l : Manifest α) {skipped taken consumed rest : List α},
    Before call l → l.undelivered = consumed ++ rest → Interleaved skipped taken consumed →
      (∀ a ∈ skipped, ¬selects a) →
      ∃ l', Assigned call l l' ∧ l'.undelivered = skipped ++ rest ∧ l'.of call = taken ∧ Earliest call selects l'
  | l, _, _, [], rest, hbefore, hundelivered, .nil, _ =>
    ⟨l, .refl l, hundelivered, hbefore.of_eq, hbefore.earliest selects⟩
  | [], _, _, a :: consumed, rest, _, hundelivered, _, _ => by cases hundelivered
  | (a, some owner) :: l, _, _, b :: consumed, rest, hbefore, hundelivered, hinterleaved, hskipped => by
    obtain ⟨hfirst, hrest⟩ := List.forall_mem_cons.1 hbefore
    have howner : owner < call := hfirst owner rfl
    obtain ⟨l', hassigned, hleft, hof, hearliest⟩ := assign call l hrest hundelivered hinterleaved hskipped
    refine ⟨(a, some owner) :: l', .cons (.inl rfl) hassigned, hleft, ?_, ?_⟩
    · simp only [of, List.filterMap_cons] at hof ⊢
      rw [if_neg (by simpa using Nat.ne_of_lt howner), hof]
    · exact List.pairwise_cons.2 ⟨fun _ _ _ _ => ⟨owner, Nat.le_of_lt howner, rfl⟩, hearliest⟩
  | (a, none) :: l, _, _, b :: consumed, rest, hbefore, hundelivered, hinterleaved, hskipped => by
    obtain ⟨-, hrest⟩ := List.forall_mem_cons.1 hbefore
    obtain ⟨rfl, htail⟩ : a = b ∧ undelivered l = consumed ++ rest := List.cons.inj hundelivered
    cases hinterleaved with
    | skip _ hinterleaved =>
      obtain ⟨hnot, hskipped⟩ := List.forall_mem_cons.1 hskipped
      obtain ⟨l', hassigned, hleft, hof, hearliest⟩ := assign call l hrest htail hinterleaved hskipped
      refine ⟨(a, none) :: l', .cons (.inl rfl) hassigned, congrArg (a :: ·) hleft, hof, ?_⟩
      exact List.pairwise_cons.2 ⟨fun _ _ _ hselects => absurd hselects hnot, hearliest⟩
    | take _ hinterleaved =>
      obtain ⟨l', hassigned, hleft, hof, hearliest⟩ := assign call l hrest htail hinterleaved hskipped
      refine ⟨(a, some call) :: l', .cons (.inr ⟨rfl, rfl⟩) hassigned, hleft, ?_, ?_⟩
      · simp only [of, List.filterMap_cons, if_true] at hof ⊢
        rw [hof]
      · exact List.pairwise_cons.2 ⟨fun _ _ _ _ => ⟨call, Nat.le_refl call, rfl⟩, hearliest⟩

end Manifest
end Lib
end PicoRecorder
