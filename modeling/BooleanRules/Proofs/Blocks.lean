import BooleanRules.Proofs.Positions

/-!
# Blocks of a journal

Leaving aside which nodes are entered, what an evaluation does comes in blocks: a
call, and if the call gave a promise, the start and the end of waiting for it.  The
blocks of a computation that is done are whole.  A computation that waits has been cut
in its last block, right after the start, and only there: this is what
`Step.InOrder` says of a step and of all that may follow it, and it is kept when
computations are put together.

## Main definitions

* `Journal.made`, `Journal.acts` — the calls with their results, and the events apart
  from entering nodes.
* `Output.block`, `Journal.InBlocks` — the block of a call, and journals of whole
  blocks.
* `Journal.Suspended` — a journal whose last block is cut after its start.
* `Step.InOrder` — a step after a given journal, all of whose waits suspend it so.

## Main results

* `Step.InOrder.drive` — within a budget, the journal is of whole blocks or suspended.
* `Async.inOrder` — the asynchronous evaluation is in order.
-/

namespace BooleanRules

variable {σ α β : Type}

/-! ### Calls and blocks -/

/-- The events of a call, those of waiting for its result included. -/
def Output.block (call : Call) (o : Output) : Journal := .called call o :: o.waits call

namespace Event

/-- The call that an event makes, with its result. -/
def made? : Event → Option (Call × Output)
  | .called call o => some (call, o)
  | _ => none

/-- The event enters a node. -/
def isEntry : Event → Bool
  | .visited _ => true
  | _ => false

end Event

namespace Journal

/-- The calls with their results, in order. -/
def made (j : Journal) : List (Call × Output) := j.filterMap Event.made?

/-- The events apart from entering nodes. -/
def acts (j : Journal) : Journal := j.filter fun ev => !ev.isEntry

/-- The blocks of some calls, one after the other. -/
def blocks (calls : List (Call × Output)) : Journal := calls.flatMap fun m => m.2.block m.1

/-- Apart from entering nodes, the journal is the blocks of its calls. -/
def InBlocks (j : Journal) : Prop := j.acts = blocks j.made

/-- The journal consists of whole blocks and a last one that is cut after its start. -/
def Suspended (j : Journal) : Prop :=
  ∃ (earlier : Journal) (call : Call) (promise : Promise),
    j = earlier ++ [.called call (.deferred promise), .started call] ∧ earlier.InBlocks

variable {j k : Journal}

@[simp] theorem made_append (j k : Journal) : made (j ++ k) = made j ++ made k :=
  List.filterMap_append

@[simp] theorem acts_append (j k : Journal) : acts (j ++ k) = acts j ++ acts k :=
  List.filter_append ..

@[simp] theorem blocks_append (xs ys : List (Call × Output)) :
    blocks (xs ++ ys) = blocks xs ++ blocks ys :=
  List.flatMap_append

theorem mem_made {call : Call} {o : Output} : (call, o) ∈ j.made ↔ .called call o ∈ j := by
  constructor
  · intro h
    obtain ⟨ev, hev, heq⟩ := List.mem_filterMap.mp h
    cases ev with
    | called call' o' => cases heq; exact hev
    | _ => cases heq
  · intro h
    exact List.mem_filterMap.mpr ⟨_, h, rfl⟩

/-- What entering nodes does not tell is told by the other events. -/
theorem filterMap_acts {γ : Type} {f : Event → Option γ} (h : ∀ p, f (.visited p) = none)
    (j : Journal) : j.acts.filterMap f = j.filterMap f := by
  have hf : (fun ev => if !ev.isEntry then f ev else none) = f := by
    funext ev
    cases ev with
    | visited p => exact (h p).symm
    | _ => rfl
  rw [acts, List.filterMap_filter, hf]

/-- Only what is not entering nodes leaves a line in the log. -/
theorem lines_acts (j : Journal) : Journal.lines j.acts = j.lines :=
  filterMap_acts (fun _ => rfl) j

theorem made_block (call : Call) (o : Output) : made (o.block call) = [(call, o)] := by
  cases o <;> rfl

theorem acts_block (call : Call) (o : Output) : acts (o.block call) = o.block call := by
  cases o <;> rfl

theorem inBlocks_nil : InBlocks [] := rfl

theorem inBlocks_visited (p : Position) : InBlocks [.visited p] := rfl

theorem inBlocks_block (call : Call) (o : Output) : (o.block call).InBlocks := by
  rw [InBlocks, acts_block, made_block]
  exact (List.append_nil _).symm

theorem InBlocks.append (hj : j.InBlocks) (hk : k.InBlocks) : (j ++ k).InBlocks := by
  unfold InBlocks at hj hk ⊢
  rw [acts_append, hj, hk, made_append, blocks_append]

/-- Whole blocks do not end with a promise that was not waited for. -/
theorem InBlocks.ne_called_deferred (h : j.InBlocks) (earlier : Journal) (call : Call)
    (promise : Promise) : j ≠ earlier ++ [.called call (.deferred promise)] := by
  rintro rfl
  have hmade : made [.called call (.deferred promise)] = [(call, .deferred promise)] := rfl
  have hacts : acts [.called call (.deferred promise)] = [.called call (.deferred promise)] := rfl
  have hblock : blocks [(call, .deferred promise)] =
      [.called call (.deferred promise), .started call, .finished call] := rfl
  rw [InBlocks, made_append, acts_append, blocks_append, hmade, hacts, hblock] at h
  have hlast := congrArg List.getLast? h
  simp at hlast

end Journal

/-! ### Steps in order -/

namespace Step

open Journal

/-- After `j`, the step consists of whole blocks if it is done, and every wait suspends it
after the start of a promise. -/
def InOrder : Step σ α → Journal → Prop
  | .done k _ _, j => InBlocks (j ++ k)
  | .pending k _ resume, j => Suspended (j ++ k) ∧ ∀ s, (resume s).InOrder (j ++ k)

theorem inOrder_after {t : Step σ α} {j k : Journal} :
    (t.after k).InOrder j ↔ t.InOrder (j ++ k) := by
  cases t <;> simp only [after, InOrder, List.append_assoc]

/-- A sequence is in order if its parts are, the second one after any whole blocks. -/
theorem InOrder.next {t : Step σ α} {f : α → Pollable σ β} {j : Journal} (h : t.InOrder j)
    (hf : ∀ a s (k : Journal), k.InBlocks → (f a s).InOrder k) : (t.next f).InOrder j := by
  induction t generalizing j with
  | done k s r =>
    cases r with
    | ok a => exact inOrder_after.mpr (hf a s (j ++ k) h)
    | error e => exact h
  | pending k s resume ih => exact ⟨h.1, fun s' => ih s' (h.2 s')⟩

/-- Within a budget a step in order ends with whole blocks or is suspended. -/
theorem InOrder.drive {t : Step σ α} {j : Journal} (h : t.InOrder j) (more : Nat) :
    ((t.drive more).result ≠ none → InBlocks (j ++ (t.drive more).journal)) ∧
      ((t.drive more).result = none → Suspended (j ++ (t.drive more).journal)) := by
  induction t generalizing j more with
  | done k s r => exact ⟨fun _ => h, fun hnone => by cases hnone⟩
  | pending k s resume ih =>
    cases more with
    | zero => exact ⟨fun hne => absurd rfl hne, fun _ => h.1⟩
    | succ more =>
      have hrest := ih s (h.2 s) more
      rw [List.append_assoc] at hrest
      exact hrest

/-- Polled to its end a step in order is whole blocks. -/
theorem InOrder.finish {t : Step σ α} {j : Journal} (h : t.InOrder j) :
    InBlocks (j ++ t.finish.journal) := by
  induction t generalizing j with
  | done k s r => exact h
  | pending k s resume ih =>
    have hrest := ih s (h.2 s)
    rw [List.append_assoc] at hrest
    exact hrest

end Step

namespace Async

open Journal

/-- While a promise is waited for, the journal is suspended; its end completes the
block. -/
theorem inOrder_waiting (call : Call) (promise : Promise) {j : Journal} (hj : j.InBlocks)
    (n : Nat) (s : σ) :
    (Pollable.waiting call promise.value n s).InOrder
      (j ++ [.called call (.deferred promise), .started call]) := by
  induction n generalizing s with
  | zero =>
    have hblock := hj.append (inBlocks_block call (.deferred promise))
    change InBlocks (j ++ [.called call (.deferred promise), .started call] ++ [.finished call])
    rw [List.append_assoc]
    exact hblock
  | succ n ih =>
    simp only [Pollable.waiting, Step.InOrder, List.append_nil]
    exact ⟨⟨j, call, promise, rfl, hj⟩, fun s' => ih s'⟩

/-- A call, and waiting for its result. -/
theorem inOrder_await (call : Call) (o : Output) {j : Journal} (hj : j.InBlocks) (s : σ) :
    (o.await call s : Step σ Bool).InOrder (j ++ [.called call o]) := by
  cases o with
  | ready v =>
    have hblock := hj.append (inBlocks_block call (.ready v))
    change InBlocks (j ++ [.called call (.ready v)] ++ [])
    rw [List.append_nil]
    exact hblock
  | deferred promise =>
    rw [Output.await, Pollable.bind_eq, Pollable.next_apply]
    refine Step.InOrder.next ?_ ?_
    · rw [Pollable.await, Step.inOrder_after, List.append_assoc]
      exact inOrder_waiting call promise hj promise.yields s
    · intro v s' k hk
      change InBlocks (k ++ [])
      rw [List.append_nil]
      exact hk

/-- **The evaluation is in order**, whatever whole blocks it comes after. -/
theorem inOrder (env : Callables σ) :
    (∀ e p s (j : Journal), j.InBlocks → (evaluate env p e s).InOrder j) ∧
      ∀ es op p i s (j : Journal), j.InBlocks → (evaluateOperands env op p i es s).InOrder j := by
  refine env.induct ?_ ?_ ?_ ?_ ?_ ?_
  · intro b p s j hj
    exact hj.append (inBlocks_visited p)
  · intro e callee f hreach p s j hj
    have hentered := hj.append (inBlocks_visited p)
    have hcall := inOrder_await ⟨p, callee⟩ (f s).1 hentered (f s).2
    rw [evaluate_of_call hreach, Step.inOrder_after]
    rwa [List.append_assoc] at hcall
  · intro e error hreach p s j hj
    rw [evaluate_of_fault hreach]
    exact hj.append (inBlocks_visited p)
  · intro op es ih p s j hj
    rw [evaluate_operator, Step.inOrder_after]
    exact ih op p 0 s _ (hj.append (inBlocks_visited p))
  · intro op p i s j hj
    exact hj.append inBlocks_nil
  · intro e es ihe ihes op p i s j hj
    rw [evaluateOperands_cons]
    refine (ihe (p ++ [i]) s j hj).next ?_
    intro b s' k hk
    by_cases hb : b = op.decidingValue
    · rw [if_pos hb]
      exact hk.append inBlocks_nil
    · rw [if_neg hb]
      exact ihes op p (i + 1) s' k hk

end Async

end BooleanRules
