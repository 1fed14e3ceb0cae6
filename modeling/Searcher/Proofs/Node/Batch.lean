/-
# Batches that a chain answers

A *chain* at a block maps each read to what it returns, or to nothing when the contract rolls it back. A node *tells* a
chain if it answers every question, each read as the chain has it. The parts of a batch are the batch again when they
are put behind each other (`Batch.parts_flatten`), so a batch of any part size is answered read by read
(`Batch.run_tells`): no part fails, and what a read returns does not depend on the part it is in.

The answers are looked up by key. A key finds the answer to its read if all reads under the key are the same.
-/

import Searcher.Node.Batch

namespace Searcher

/-- What each read returns at one block, and nothing for a read that is rolled back. -/
abbrev Chain := Read → Option Bytes

variable {σ κ : Type} {chain : Chain} {block : Option Nat}

/-- The node answers every question about a block, each read as the chain has it. -/
def Node.Tells (node : Node σ) (chain : Chain) (block : Option Nat) : Prop :=
  ∀ reads s, (node.readAll block reads s).1 = some (reads.map chain)

/-- A node without a state that tells a chain at all blocks, and knows nothing else. -/
def Node.ofChain (chain : Chain) : Node Unit where
  request _ _ := throw .unreadable
  readAll _ reads := return some (reads.map chain)

/-- A node that is made of a chain tells it. -/
theorem Node.ofChain_tells (chain : Chain) (block : Option Nat) : (Node.ofChain chain).Tells chain block :=
  fun _ _ => rfl

/-- A computation on a state hands on what the first one returned and left. -/
theorem state_bind_apply {α β : Type} (x : StateM σ α) (f : α → StateM σ β) (s : σ) :
    (x >>= f) s = f (x s).1 (x s).2 := rfl

/-- A step of the node alone does not fail. -/
theorem Reading.lift_bind_apply {α β : Type} (x : StateM σ α) (f : α → Reading σ β) (s : σ) :
    ((ExceptT.lift x : Reading σ α) >>= f) s = f (x s).1 (x s).2 := rfl

/-- After a step that succeeded the next one runs from where it left the node. -/
theorem Reading.bind_apply_of_ok {α β : Type} {x : Reading σ α} {f : α → Reading σ β} {s : σ} {a : α}
    (h : (x s).1 = .ok a) : (x >>= f) s = f a (x s).2 := by
  change ExceptT.bindCont f (x s).1 (x s).2 = _
  rw [h]
  rfl

/-- After a step that failed none runs. -/
theorem Reading.bind_apply_of_error {α β : Type} {x : Reading σ α} {f : α → Reading σ β} {s : σ} {e : ReadError}
    (h : (x s).1 = .error e) : (x >>= f) s = (.error e, (x s).2) := by
  change ExceptT.bindCont f (x s).1 (x s).2 = _
  rw [h]
  rfl

/-- What may change is handed on as it was. -/
theorem Reading.beside_bind_of_ok {τ α β : Type} {x : Reading σ α} {f : α → Updating τ σ β} {t : τ} {s : σ} {a : α}
    (h : (x s).1 = .ok a) : (x.beside τ >>= f) (t, s) = f a (t, (x s).2) := by
  change ExceptT.bindCont f (x s).1 (t, (x s).2) = _
  rw [h]
  rfl

/-- **A reading that fails leaves what may change as it was.** -/
theorem Reading.beside_bind_of_error {τ α β : Type} {x : Reading σ α} {f : α → Updating τ σ β} {t : τ} {s : σ}
    {e : ReadError} (h : (x s).1 = .error e) : (x.beside τ >>= f) (t, s) = (.error e, t, (x s).2) := by
  change ExceptT.bindCont f (x s).1 (t, (x s).2) = _
  rw [h]
  rfl

namespace Answers

/-- What a chain returns to reads. -/
def ofChain (chain : Chain) (reads : List (KeyedRead κ)) : Answers κ :=
  (reads.map fun r => (r.key, chain r.read)).reverse

variable [BEq κ] [LawfulBEq κ] {reads : List (KeyedRead κ)} {r : KeyedRead κ} {key : κ}

/-- A key under which all reads are one read has what this read returns. -/
theorem get?_ofChain (hr : r ∈ reads) (h : ∀ r' ∈ reads, r'.key = r.key → r'.read = r.read) :
    (ofChain chain reads).get? r.key = chain r.read := by
  suffices hl : (ofChain chain reads).lookup r.key = some (chain r.read) by rw [get?, hl, Option.join_some]
  rcases hl : (ofChain chain reads).lookup r.key with _ | returned
  · rw [List.lookup_eq_none_iff] at hl
    have := hl (r.key, chain r.read) (List.mem_reverse.2 (List.mem_map_of_mem hr))
    simp at this
  · obtain ⟨before, behind, he, -⟩ := List.lookup_eq_some_iff.1 hl
    have hmem : (r.key, returned) ∈ ofChain chain reads := by
      rw [he]
      exact List.mem_append_right _ List.mem_cons_self
    obtain ⟨r', hr', heq⟩ := List.mem_map.1 (List.mem_reverse.1 hmem)
    obtain ⟨hkey, rfl⟩ := Prod.mk.inj heq
    rw [h r' hr' hkey]

/-- Nothing is told of a key that nobody asks for. -/
theorem get?_ofChain_eq_none (h : ∀ r ∈ reads, r.key ≠ key) : (ofChain chain reads).get? key = none := by
  suffices hl : (ofChain chain reads).lookup key = none by rw [get?, hl, Option.join_none]
  rw [List.lookup_eq_none_iff]
  intro answer hanswer
  obtain ⟨r, hr, rfl⟩ := List.mem_map.1 (List.mem_reverse.1 hanswer)
  simpa using Ne.symm (h r hr)

end Answers

namespace Batch

/-- The parts of a batch make up the batch. -/
theorem parts_flatten {α : Type} (size : Nat) (xs : List α) : (parts size xs).flatten = xs := by
  induction xs using parts.induct size with
  | case1 => rw [parts, if_pos rfl, List.flatten_nil]
  | case2 xs hne ih => rw [parts, if_neg hne, List.flatten_cons, ih, List.take_append_drop]

/-- What a chain returns to the reads of a part, none of which fails. -/
def answered (chain : Chain) (part : List (KeyedRead κ)) : Bool × Answers κ :=
  (false, part.map fun r => (r.key, chain r.read))

variable {node : Node σ}

/-- What is asked of a node that tells a chain is answered by the chain. -/
theorem ask_tells (h : node.Tells chain block) (part : List (KeyedRead κ)) (s : σ) :
    (ask node block part s).1 = answered chain part := by
  rw [ask, state_bind_apply, h]
  change (false, (part.map (·.key)).zip ((part.map (·.read)).map chain)) = _
  rw [List.map_map, List.zip_map']
  rfl

/-- So it is part by part. -/
theorem mapM_ask_tells (h : node.Tells chain block) (parts : List (List (KeyedRead κ))) (s : σ) :
    (parts.mapM (ask node block) s).1 = parts.map (answered chain) := by
  induction parts generalizing s with
  | nil => rfl
  | cons part parts ih =>
    rw [List.mapM_cons, state_bind_apply, state_bind_apply, ask_tells h, ih]
    rfl

/-- **A batch is answered read by read.** Put to a node that tells a chain, a batch has what the chain returns to its
reads, whatever the size of the parts is. -/
theorem run_tells (h : node.Tells chain block) (size : Nat) (reads : List (KeyedRead κ)) (s : σ) :
    (run node size block reads s).1 = .ok (Answers.ofChain chain reads) := by
  rw [run, Reading.lift_bind_apply, mapM_ask_tells h]
  have hfails : ¬ (¬ ((parts size reads).map (answered chain)).isEmpty ∧
      ((parts size reads).map (answered chain)).all (·.1)) := by
    rintro ⟨hne, hall⟩
    rcases hp : parts size reads with _ | ⟨part, rest⟩ <;> rw [hp] at hne hall
    · simp at hne
    · simp [answered] at hall
  have hanswers : ((parts size reads).map (answered chain)).flatMap (·.2) =
      reads.map fun r => (r.key, chain r.read) := by
    calc ((parts size reads).map (answered chain)).flatMap (·.2)
        = ((parts size reads).map fun part => part.map fun r => (r.key, chain r.read)).flatten := by
          rw [List.flatMap_map, List.flatMap_def]
          rfl
      _ = reads.map fun r => (r.key, chain r.read) := by rw [← List.map_flatten, parts_flatten]
  rw [if_neg hfails, hanswers]
  rfl

end Batch
end Searcher
