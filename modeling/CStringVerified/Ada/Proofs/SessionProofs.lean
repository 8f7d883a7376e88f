import CStringVerified.Ada.Proofs.CCallProofs
import CStringVerified.Ada.Proofs.FailureProofs

/-!
# Sessions refine shelves

Whatever a program does with the packages, C prints of an array what went into it when it was made: the
calls in between do not touch it. One step of a session is matched by one step of a shelf, and a run by
a run.
-/

namespace CStringVerified.CString.Arrays

open Foundation

variable {A : Allocator} {h h' : Heap} {s s' : Session} {t t' : Shelf} {call : EncodeCall}

/-! ## Calls that are served -/

/-- The array shows the strings of the call, and is a table in blocks of its own. -/
structure Shelved (h : Heap) (array : Kept) (call : EncodeCall) : Prop where
  table : ∃ T slots, array.pointer = ⟨T.base⟩ ∧ Owned h T slots ∧
    slots.map (Option.map cut) = terminated call.texts
  count : array.count = call.strings.length

theorem Shelved.of_extends {array : Kept} (hs : Shelved h array call) (he : h.Extends h') :
    Shelved h' array call := by
  obtain ⟨T, slots, hpointer, howned, hslots⟩ := hs.table
  exact ⟨⟨T, slots, hpointer, howned.of_extends he, hslots⟩, hs.count⟩

/-- What C finds at the address of the array. -/
theorem Shelved.pointerTable {array : Kept} (hs : Shelved h array call) :
    PointerTable h.mem array.pointer.pointer (terminated call.texts) := by
  obtain ⟨T, slots, hpointer, howned, hslots⟩ := hs.table
  rw [hpointer, ← hslots]
  exact howned.table

/-- At most the last string of a call is missing. -/
theorem length_texts (call : EncodeCall) :
    call.texts.length ≤ call.strings.length ∧ call.strings.length ≤ call.texts.length + 1 := by
  cases call with
  | terminated strings =>
    simp only [EncodeCall.texts, EncodeCall.strings, List.length_map, Arr.length]
    omega
  | sized strings =>
    simp only [EncodeCall.texts, EncodeCall.strings, List.length_map, List.length_dropLast,
      Arr.length]
    omega

/-- C can count the slots of any array Ada can make. -/
theorem length_texts_lt (call : EncodeCall) : call.texts.length + 1 < unsignedCount := by
  have hmax : integerLast + 2 < unsignedCount := by decide
  have hle := (length_texts call).1
  have hbounds := call.strings.length_eq_bounds
  have hinside := call.strings.bounds
  omega

/-! ## One step -/

/-- The arrays of the session show the calls on the shelf. -/
structure Represents (s : Session) (t : Shelf) : Prop where
  kept : List.Forall₂ (Shelved s.heap) s.kept t.kept
  out : s.out = t.out
  returned : s.returned = t.returned

theorem shelved_extends {kept : List Kept} {calls : List EncodeCall}
    (hk : List.Forall₂ (Shelved h) kept calls) (he : h.Extends h') :
    List.Forall₂ (Shelved h') kept calls :=
  hk.imp fun _ _ hs => hs.of_extends he

/-- There is an array with that number, and a call, or there is neither. -/
theorem shelved_getElem? {kept : List Kept} {calls : List EncodeCall}
    (hk : List.Forall₂ (Shelved h) kept calls) (i : Nat) :
    (kept[i]? = none ∧ calls[i]? = none) ∨
      ∃ array call, kept[i]? = some array ∧ calls[i]? = some call ∧ Shelved h array call := by
  induction hk generalizing i with
  | nil => exact Or.inl ⟨List.getElem?_nil, List.getElem?_nil⟩
  | cons hs hrest ih =>
    cases i with
    | zero => exact Or.inr ⟨_, _, rfl, rfl, hs⟩
    | succ i => simpa only [List.getElem?_cons_succ] using ih i

/-- C returns, and prints. -/
theorem callC_refines {function : CCode Nat} {slots : List (Option (List Byte))} {count : Nat}
    (hr : Represents s t)
    (hrun : function ⟨s.heap, s.out⟩ = (.ok count, ⟨s.heap, s.out ++ report slots⟩)) :
    ∃ s', s.callC function = .ok s' ∧ s'.heap = s.heap ∧ Represents s' (t.shown slots count) := by
  refine ⟨{ s with out := s.out ++ report slots, returned := s.returned ++ [count] }, ?_, rfl, ?_⟩
  · unfold Session.callC
    rw [hrun]
  · refine ⟨hr.kept, ?_, ?_⟩
    · simp only [Shelf.shown, hr.out]
    · simp only [Shelf.shown, hr.returned]

/-- A step of the session is a step of the shelf, unless Ada code touches memory that is not there. -/
theorem act_refines (A : Allocator) (hr : Represents s t) (action : Action) :
    (∃ s' t', s.act A action = .ok s' ∧ s'.heap = action.after A s.heap ∧
      t.Acts A s.heap s'.heap action t' ∧ Represents s' t') ∨
    ∃ op a, action = .operation op ∧ s.act A action = .error (.ada a) ∧
      (op.run A s.heap).1 = .error (.erroneous a) ∧ Unmapped (op.run A s.heap).2 a := by
  cases action with
  | encode call =>
    left
    have he := run_extends A call s.heap
    rcases encodeCall_cases A call s.heap with ⟨e, h, hrun, hwhy⟩ |
        ⟨h, T, slots, hrun, hne, howned, hslots⟩
    · rw [hrun] at he
      exact ⟨{ s with heap := h }, t, by simp only [Session.act, hrun],
        by simp only [Action.after, hrun], .refused t hwhy, shelved_extends hr.kept he, hr.out,
        hr.returned⟩
    · rw [hrun] at he
      have hs : Shelved h ⟨⟨T.base⟩, call.strings.length⟩ call :=
        ⟨⟨T, slots, rfl, howned, hslots⟩, rfl⟩
      exact ⟨{ s with heap := h, kept := s.kept ++ [⟨⟨T.base⟩, call.strings.length⟩] },
        { t with kept := t.kept ++ [call] }, by simp only [Session.act, hrun],
        by simp only [Action.after, hrun], .stored t hne,
        List.rel_append (shelved_extends hr.kept he) (.cons hs .nil), hr.out, hr.returned⟩
  | operation op =>
    have hframes := operation_frames A op
    have he := hframes.keeps s.heap
    match hrun : op.run A s.heap with
    | (.ok _, h) =>
      rw [hrun] at he
      exact Or.inl ⟨{ s with heap := h }, t, by simp only [Session.act, hrun],
        by simp only [Action.after, hrun], .operation t op, shelved_extends hr.kept he, hr.out,
        hr.returned⟩
    | (.error (.raised e), h) =>
      rw [hrun] at he
      exact Or.inl ⟨{ s with heap := h }, t, by simp only [Session.act, hrun],
        by simp only [Action.after, hrun], .operation t op, shelved_extends hr.kept he, hr.out,
        hr.returned⟩
    | (.error (.erroneous a), h) =>
      exact Or.inr ⟨op, a, rfl, by simp only [Session.act, hrun], by rw [hrun],
        hrun ▸ hframes.blames s.heap _ h hrun a rfl⟩
  | inputTerm i =>
    left
    rcases shelved_getElem? hr.kept i with ⟨hnone, hnone'⟩ | ⟨array, call, hsome, hsome', hs⟩
    · exact ⟨s, t, by simp only [Session.act, hnone], rfl, .inputTermNone t hnone', hr⟩
    · obtain ⟨s', hcall, hheap, hr'⟩ := callC_refines hr
        (ccallInputTerm_terminated hs.pointerTable (Nat.lt_of_succ_lt (length_texts_lt call)) s.out)
      exact ⟨s', _, by simp only [Session.act, hsome, hcall], hheap, .inputTerm t hsome', hr'⟩
  | inputUnterm i size =>
    left
    rcases shelved_getElem? hr.kept i with ⟨hnone, hnone'⟩ | ⟨array, call, hsome, hsome', hs⟩
    · refine ⟨s, t, by simp only [Session.act, hnone], rfl,
        .inputUntermNone t fun call hcall => ?_, hr⟩
      rw [hnone'] at hcall
      cases hcall
    · by_cases hsize : size ≤ array.count
      · have hcount := hs.count
        have hle := (length_texts call).2
        have hshort := length_texts_lt call
        have hlen : ((terminated call.texts).take size).length = size := by
          rw [List.length_take, length_terminated]
          omega
        have htable : PointerTable s.heap.mem array.pointer.pointer
            ((terminated call.texts).take size) := hs.pointerTable.take size
        have hrun := ccallInputUnterm_eq htable (by omega) s.out
        rw [hlen] at hrun
        obtain ⟨s', hcall, hheap, hr'⟩ := callC_refines hr hrun
        exact ⟨s', _, by simp only [Session.act, hsome, if_pos hsize, hcall], hheap,
          .inputUnterm t hsome' (hcount ▸ hsize), hr'⟩
      · refine ⟨s, t, by simp only [Session.act, hsome, if_neg hsize], rfl,
          .inputUntermNone t fun call' hcall => ?_, hr⟩
        rw [hsome'] at hcall
        cases hcall
        rw [← hs.count]
        exact Nat.lt_of_not_le hsize

/-! ## Runs -/

/-- A program that has come to a call of Ada code which touches an address where nothing is mapped. -/
def Session.EndsAt (A : Allocator) (s : Session) (actions : List Action) (a : Address) : Prop :=
  ∃ done op rest s', actions = done ++ .operation op :: rest ∧ s.run A done = .ok s' ∧
    (op.run A s'.heap).1 = .error (.erroneous a) ∧ Unmapped (op.run A s'.heap).2 a

theorem Session.EndsAt.cons {action : Action} {actions : List Action} {a : Address}
    (hact : s.act A action = .ok s') (hends : s'.EndsAt A actions a) :
    s.EndsAt A (action :: actions) a := by
  obtain ⟨done, op, rest, s1, rfl, hdone, hwhy⟩ := hends
  exact ⟨action :: done, op, rest, s1, rfl, by simp only [Session.run, hact, hdone], hwhy⟩

theorem run_refines (A : Allocator) (actions : List Action) (hr : Represents s t) :
    (∃ s' t', s.run A actions = .ok s' ∧ t.Runs A s.heap actions t' ∧ Represents s' t') ∨
      ∃ a, s.run A actions = .error (.ada a) ∧ s.EndsAt A actions a := by
  induction actions generalizing s t with
  | nil => exact Or.inl ⟨s, t, rfl, .nil s.heap t, hr⟩
  | cons action actions ih =>
    rcases act_refines A hr action with ⟨s1, t1, hact, hheap, hstep, hr1⟩ | ⟨op, a, rfl, hact, hwhy⟩
    · rw [hheap] at hstep
      rcases ih hr1 with ⟨s2, t2, hrun, hsteps, hr2⟩ | ⟨a, hrun, hends⟩
      · rw [hheap] at hsteps
        exact Or.inl ⟨s2, t2, by simp only [Session.run, hact, hrun], .cons hstep hsteps, hr2⟩
      · exact Or.inr ⟨a, by simp only [Session.run, hact, hrun], hends.cons hact⟩
    · exact Or.inr ⟨a, by simp only [Session.run, hact], [], op, actions, s, rfl, rfl, hwhy⟩

/-- A program that uses the packages sees what a shelf shows: every array, whenever it is handed to C,
holds the strings it was made of, and the C functions return their number. An encoder is served unless
its array is empty, ends at `Natural'Last` and needs a null slot, or a request of the call was refused.
The program ends early only where it comes to a call that touches an address at which nothing is
mapped. -/
theorem session_refines_shelf (A : Allocator) (h : Heap) (actions : List Action) :
    (∃ s t, Session.run A ⟨h, [], [], []⟩ actions = .ok s ∧
      Shelf.Runs A h ⟨[], [], []⟩ actions t ∧ s.kept.length = t.kept.length ∧ s.out = t.out ∧
        s.returned = t.returned) ∨
    ∃ a, Session.run A ⟨h, [], [], []⟩ actions = .error (.ada a) ∧
      Session.EndsAt A ⟨h, [], [], []⟩ actions a := by
  have hstart : Represents ⟨h, [], [], []⟩ ⟨[], [], []⟩ := ⟨.nil, rfl, rfl⟩
  rcases run_refines A actions hstart with ⟨s, t, hrun, hsteps, hr⟩ | hcrash
  · exact Or.inl ⟨s, t, hrun, hsteps, hr.kept.length_eq, hr.out, hr.returned⟩
  · exact Or.inr hcrash

end CStringVerified.CString.Arrays
