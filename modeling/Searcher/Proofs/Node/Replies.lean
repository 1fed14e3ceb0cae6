/-
# Batches of which parts fail

A batch is put to a node in parts. The node replies to a part with what each of its reads returned, or it fails. With
parts of `n` reads, read number `i` of the batch is read `i % n` of part `i / n` (`Batch.getElem?_parts`), so what it
returned stands at the same place of the replies (`Batch.told`).

The batch goes over its parts twice, to ask them and to note what they returned. Both times it cuts them alike: what is
noted for each read is what was told of it (`Batch.notes_eq_mapIdx`), whichever parts fail.
-/

import Mathlib.Data.List.Forall2
import Searcher.Proofs.Node.Batch
import Searcher.Node.Recorded

namespace Searcher

/-- What each read of a part returned, or nothing if the part failed. -/
abbrev Reply := Option (List (Option Bytes))

variable {σ κ : Type} {block : Option Nat}

/-- The node replies to all reads of a part, or fails. -/
def Node.Whole (node : Node σ) (block : Option Nat) : Prop :=
  ∀ reads s returned, (node.readAll block reads s).1 = some returned → returned.length = reads.length

/-- A recorded node replies to every read of a part, with nothing at worst. -/
theorem Recorded.node_whole (block : Option Nat) : Recorded.node.Whole block := by
  intro reads s returned h
  change (Recorded.readAll block reads s).1 = some returned at h
  rw [Recorded.readAll, state_bind_apply, state_bind_apply] at h
  -- the question is counted, and only one that is answered has a reply
  generalize (Recorded.note (.reads (.blockTag block) (some reads.length)) s).2 = s' at h
  generalize Recorded.count s' = counted at h
  rcases counted with ⟨_ | _ | _, s''⟩
  · obtain rfl := Option.some.inj h
    exact List.length_map _
  · cases h
  · cases h

namespace Batch

/-! ### Where a read stands -/

/-- An empty batch has no parts. -/
theorem parts_nil (size : Nat) : parts size ([] : List κ) = [] := by
  rw [parts, if_pos rfl]

/-- The first part is as long as parts may be, and the rest is cut the same way. Parts of size zero count as of size
one. -/
theorem parts_of_ne_nil (size : Nat) {xs : List κ} (h : xs ≠ []) :
    parts size xs = xs.take (max 1 size) :: parts size (xs.drop (max 1 size)) := by
  rw [parts, if_neg h]

/-- Only the empty batch has no parts. -/
theorem parts_eq_nil {size : Nat} {xs : List κ} : parts size xs = [] ↔ xs = [] := by
  constructor
  · intro h
    by_contra hne
    rw [parts_of_ne_nil size hne] at h
    cases h
  · rintro rfl
    exact parts_nil size

/-- Number `i` of a list stands at place `i % n` of part `i / n`. -/
theorem getElem?_parts (size : Nat) (xs : List κ) (i : Nat) :
    (parts size xs)[i / max 1 size]?.bind (·[i % max 1 size]?) = xs[i]? := by
  induction xs using parts.induct size generalizing i with
  | case1 => rw [parts_nil, List.getElem?_nil, List.getElem?_nil, Option.bind_none]
  | case2 xs hne ih =>
    rw [parts_of_ne_nil size hne]
    rcases Nat.lt_or_ge i (max 1 size) with hi | hi
    · rw [Nat.div_eq_of_lt hi, Nat.mod_eq_of_lt hi, List.getElem?_cons_zero, Option.bind_some,
        List.getElem?_take_of_lt hi]
    · obtain ⟨k, rfl⟩ := Nat.exists_eq_add_of_le' hi
      rw [Nat.add_div_right k (by omega), Nat.add_mod_right, List.getElem?_cons_succ, ih k, List.getElem?_drop,
        Nat.add_comm]

/-! ### What is noted of the replies -/

/-- The replies to the parts of a batch, in order. -/
def replies (node : Node σ) (block : Option Nat) (parts : List (List (KeyedRead κ))) : StateM σ (List Reply) :=
  parts.mapM fun part => node.readAll block (part.map (·.read))

/-- What read number `i` returned: it stands in the reply to its part, unless the part failed. -/
def told (size : Nat) (replies : List Reply) (i : Nat) : Option Bytes := do
  let returned ← replies[i / max 1 size]?.join
  returned[i % max 1 size]?.join

/-- What is noted of a part, and whether it failed. -/
def noted (part : List (KeyedRead κ)) : Reply → Bool × Answers κ
  | some returned => (false, (part.map (·.key)).zip returned)
  | none => (true, part.map fun r => (r.key, none))

/-- What is noted of all parts. -/
def notes (parts : List (List (KeyedRead κ))) (replies : List Reply) : Answers κ :=
  (List.zipWith noted parts replies).flatMap (·.2)

/-- A reply to a part speaks of all of its reads. -/
def Fits (part : List (KeyedRead κ)) (reply : Reply) : Prop :=
  ∀ returned, reply = some returned → returned.length = part.length

variable {node : Node σ} {size : Nat} {reads part : List (KeyedRead κ)} {parts' : List (List (KeyedRead κ))}
  {reply : Reply} {rest : List Reply}

/-- Asking a part puts its reads to the node and notes the reply. -/
theorem ask_apply (node : Node σ) (block : Option Nat) (part : List (KeyedRead κ)) (s : σ) :
    ask node block part s = (noted part (node.readAll block (part.map (·.read)) s).1,
      (node.readAll block (part.map (·.read)) s).2) := by
  rw [ask, state_bind_apply]
  generalize node.readAll block (part.map (·.read)) s = answer
  rcases answer with ⟨_ | returned, s'⟩ <;> rfl

/-- Asking all parts notes the reply to each, from one state of the node to the next. -/
theorem mapM_ask_apply (node : Node σ) (block : Option Nat) (parts : List (List (KeyedRead κ))) (s : σ) :
    parts.mapM (ask node block) s =
      (List.zipWith noted parts (replies node block parts s).1, (replies node block parts s).2) := by
  unfold replies
  induction parts generalizing s with
  | nil => rfl
  | cons part parts ih =>
    rw [List.mapM_cons, List.mapM_cons]
    simp only [state_bind_apply, ask_apply, ih]
    rfl

/-- A node that replies to all reads has a reply for each part, and one that fits. -/
theorem replies_fit (h : node.Whole block) (parts : List (List (KeyedRead κ))) (s : σ) :
    List.Forall₂ Fits parts (replies node block parts s).1 := by
  unfold replies
  induction parts generalizing s with
  | nil => exact .nil
  | cons part parts ih =>
    rw [List.mapM_cons, state_bind_apply, state_bind_apply]
    refine .cons ?_ (ih _)
    intro returned hreturned
    rw [h _ s returned hreturned, List.length_map]

/-- The batch reports that all parts failed exactly if every reply is missing. -/
theorem all_noted (h : List.Forall₂ Fits parts' rest) :
    (List.zipWith noted parts' rest).all (·.1) ↔ ∀ reply ∈ rest, reply = none := by
  induction h with
  | nil => simp
  | @cons part reply parts rest _ _ ih =>
    rw [List.zipWith_cons_cons, List.all_cons, Bool.and_eq_true, ih, List.forall_mem_cons]
    cases reply <;> simp [noted]

/-- What a read of the first part returned stands in the first reply. -/
theorem told_of_lt {i : Nat} (hi : i < max 1 size) : told size (reply :: rest) i = reply.bind (·[i]?.join) := by
  rw [told, Nat.div_eq_of_lt hi, Nat.mod_eq_of_lt hi]
  rfl

/-- What a read of a later part returned stands in the replies after the first, one part further on. -/
theorem told_add (size : Nat) (reply : Reply) (rest : List Reply) (i : Nat) :
    told size (reply :: rest) (i + max 1 size) = told size rest i := by
  rw [told, Nat.add_div_right i (by omega), Nat.add_mod_right]
  rfl

/-- Of each read of a part is noted what the reply says at its place. -/
theorem noted_eq_mapIdx (h : Fits part reply) :
    (noted part reply).2 = part.mapIdx fun i r => (r.key, reply.bind (·[i]?.join)) := by
  cases reply with
  | none =>
    apply List.ext_getElem
    · simp [noted]
    · intro i hi hi'
      simp [noted]
  | some returned =>
    have hlength := h returned rfl
    apply List.ext_getElem
    · simp [noted, hlength]
    · intro i hi hi'
      have hi : i < returned.length := by simpa [hlength] using hi'
      simp [noted, hi]

/-- **What is noted of a batch.** Of each read is noted what was told of it. -/
theorem notes_eq_mapIdx (h : List.Forall₂ Fits (parts size reads) rest) :
    notes (parts size reads) rest = reads.mapIdx fun i r => (r.key, told size rest i) := by
  induction reads using parts.induct size generalizing rest with
  | case1 =>
    rw [parts_nil] at h ⊢
    cases h
    rfl
  | case2 reads hne ih =>
    rw [parts_of_ne_nil size hne] at h ⊢
    obtain ⟨reply, rest, hfits, hrest, rfl⟩ := List.forall₂_cons_left_iff.1 h
    set n := max 1 size with hn
    have hfirst : (noted (reads.take n) reply).2 =
        (reads.take n).mapIdx fun i r => (r.key, told size (reply :: rest) i) := by
      rw [noted_eq_mapIdx hfits, List.mapIdx_eq_mapIdx_iff]
      intro i hi
      rw [told_of_lt (Nat.lt_of_lt_of_le hi (List.length_take_le n reads))]
    have hbehind : notes (parts size (reads.drop n)) rest =
        (reads.drop n).mapIdx fun i r => (r.key, told size (reply :: rest) (i + (reads.take n).length)) := by
      rw [ih hrest, List.mapIdx_eq_mapIdx_iff]
      intro i hi
      -- there are reads behind the first part only if it is full
      have hfull : (reads.take n).length = n := by
        rw [List.length_drop] at hi
        rw [List.length_take]
        omega
      rw [hfull, told_add]
    calc notes (reads.take n :: parts size (reads.drop n)) (reply :: rest)
        = (noted (reads.take n) reply).2 ++ notes (parts size (reads.drop n)) rest := List.flatMap_cons
      _ = (reads.take n ++ reads.drop n).mapIdx fun i r => (r.key, told size (reply :: rest) i) := by
          rw [hfirst, hbehind, List.mapIdx_append]
      _ = reads.mapIdx fun i r => (r.key, told size (reply :: rest) i) := by rw [List.take_append_drop]

/-- A batch is an error if every part of it failed, and has what was told of each read otherwise. -/
theorem run_apply (h : node.Whole block) (size : Nat) (reads : List (KeyedRead κ)) (s : σ) :
    let rest := (replies node block (parts size reads) s).1
    (run node size block reads s).1 =
      if reads ≠ [] ∧ ∀ reply ∈ rest, reply = none then .error .allPartsFailed
      else .ok (reads.mapIdx fun i r => (r.key, told size rest i)).reverse := by
  intro rest
  have hfit : List.Forall₂ Fits (parts size reads) rest := replies_fit h (parts size reads) s
  have hfails : (¬ (List.zipWith noted (parts size reads) rest).isEmpty ∧
      (List.zipWith noted (parts size reads) rest).all (·.1)) ↔ reads ≠ [] ∧ ∀ reply ∈ rest, reply = none := by
    rw [all_noted hfit, List.isEmpty_iff, List.zipWith_eq_nil_iff, parts_eq_nil]
    have : rest = [] → reads = [] := by
      intro hnone
      rw [hnone, List.forall₂_nil_right_iff, parts_eq_nil] at hfit
      exact hfit
    tauto
  rw [run, Reading.lift_bind_apply, mapM_ask_apply]
  by_cases hnone : reads ≠ [] ∧ ∀ reply ∈ rest, reply = none
  · rw [if_pos hnone, if_pos (hfails.2 hnone)]
    rfl
  · rw [if_neg hnone, if_neg (mt hfails.1 hnone), ← notes_eq_mapIdx hfit]
    rfl

/-- **When a batch fails:** exactly if something was asked and every part of it failed. -/
theorem run_eq_error_iff (h : node.Whole block) (size : Nat) (reads : List (KeyedRead κ)) (s : σ) :
    (run node size block reads s).1 = .error .allPartsFailed ↔
      reads ≠ [] ∧ ∀ reply ∈ (replies node block (parts size reads) s).1, reply = none := by
  rw [run_apply h]
  split
  · rename_i hfails
    exact iff_of_true rfl hfails
  · rename_i hsome
    refine iff_of_false ?_ hsome
    intro herror
    cases herror

/-! ### The answers by key -/

/-- A read is told something exactly where the reply to its part is there and has it at its place. -/
theorem told_eq_some_iff {replies : List Reply} {i : Nat} {data : Bytes} : told size replies i = some data ↔
    ∃ returned, replies[i / max 1 size]? = some (some returned) ∧ returned[i % max 1 size]? = some (some data) := by
  simp only [told, Option.bind_eq_bind, Option.bind_eq_some_iff, Option.join_eq_some_iff]

/-- Replies without a failure tell of each read what it returned, wherever the batch is cut. -/
theorem told_parts (size : Nat) (returned : List (Option Bytes)) (i : Nat) :
    told size ((parts size returned).map some) i = returned[i]?.join := by
  rw [← getElem?_parts size returned i, told, List.getElem?_map]
  rcases (parts size returned)[i / max 1 size]? with _ | part <;> rfl

/-- Under keys that differ, what is looked up is what stands in the row. -/
theorem lookup_of_mem [DecidableEq κ] {answers : Answers κ} (h : (answers.map (·.1)).Nodup) {key : κ}
    {found : Option Bytes} (hmem : (key, found) ∈ answers) : answers.lookup key = some found := by
  induction answers with
  | nil => cases hmem
  | cons answer answers ih =>
    obtain ⟨hfirst, hrest⟩ := List.nodup_cons.1 h
    rcases List.mem_cons.1 hmem with rfl | hmem
    · exact List.lookup_cons_self
    · have hne : key ≠ answer.1 := by
        rintro rfl
        exact hfirst (List.mem_map.2 ⟨_, hmem, rfl⟩)
      rw [List.lookup_cons, beq_false_of_ne hne, ih hrest hmem]

/-- What is noted of reads by their numbers has their keys. -/
theorem map_fst_mapIdx (reads : List (KeyedRead κ)) (f : Nat → Option Bytes) :
    (reads.mapIdx fun i r => (r.key, f i)).map (·.1) = reads.map (·.key) := by
  apply List.ext_getElem?
  intro i
  simp only [List.getElem?_map, List.getElem?_mapIdx, Option.map_map]
  rfl

/-- Under the key of a read is what is noted of it, if the keys differ. -/
theorem lookup_mapIdx [DecidableEq κ] (distinct : (reads.map (·.key)).Nodup) (f : Nat → Option Bytes) {i : Nat}
    {r : KeyedRead κ} (hr : reads[i]? = some r) :
    (reads.mapIdx fun i r => (r.key, f i)).reverse.lookup r.key = some (f i) := by
  apply lookup_of_mem
  · rw [List.map_reverse, map_fst_mapIdx]
    exact (List.reverse_perm _).nodup_iff.2 distinct
  · rw [List.mem_reverse, List.mem_iff_getElem?]
    exact ⟨i, by rw [List.getElem?_mapIdx, hr, Option.map_some]⟩

/-- What is noted of reads that all returned something is one list beside the other. -/
theorem mapIdx_eq_zip {returned : List (Option Bytes)} (h : returned.length = reads.length) :
    (reads.mapIdx fun i r => (r.key, returned[i]?.join)) = (reads.map (·.key)).zip returned := by
  apply List.ext_getElem
  · simp [h]
  · intro i hi hi'
    have hi : i < returned.length := by simpa [h] using hi
    simp [hi]

/-- A batch of which no part fails has what its reads returned. -/
theorem run_of_parts (h : node.Whole block) {returned : List (Option Bytes)} (hlength : returned.length = reads.length)
    {s : σ} (hreplied : (replies node block (parts size reads) s).1 = (parts size returned).map some) :
    (run node size block reads s).1 = .ok ((reads.map (·.key)).zip returned).reverse := by
  have hanswered : ¬ (reads ≠ [] ∧ ∀ reply ∈ (parts size returned).map some, reply = none) := by
    rintro ⟨hne, hfailed⟩
    rcases hparts : parts size returned with _ | ⟨part, others⟩
    · rw [parts_eq_nil] at hparts
      rw [hparts, List.length_nil] at hlength
      exact hne (List.length_eq_zero_iff.1 hlength.symm)
    · rw [hparts] at hfailed
      cases hfailed (some part) List.mem_cons_self
  rw [run_apply h, hreplied, if_neg hanswered]
  simp only [told_parts, mapIdx_eq_zip hlength]

/-- **A batch is answered read by read, however it is cut.** Let the keys of the reads differ, and let the node reply to
all reads of a part unless it fails. Then the batch is an error exactly if it has reads and every part of it failed.
Otherwise its answers have just the keys of its reads. Under the key of read number `i` they have the bytes that this
read returned if its part did not fail and the read was not rolled back, and no bytes in all other cases. Where no part
fails the answers are what the reads return, whatever the size of the parts is. -/
theorem run_answers [DecidableEq κ] (h : node.Whole block) (distinct : (reads.map (·.key)).Nodup) (size : Nat) (s : σ) :
    let n := max 1 size
    let replied := (replies node block (parts size reads) s).1
    let answered := (run node size block reads s).1
    (answered = .error .allPartsFailed ↔ reads ≠ [] ∧ ∀ reply ∈ replied, reply = none) ∧
      (¬ (reads ≠ [] ∧ ∀ reply ∈ replied, reply = none) → ∃ answers, answered = .ok answers ∧
        (answers.map (·.1)).Perm (reads.map (·.key)) ∧
        ∀ i r, reads[i]? = some r → (parts size reads)[i / n]?.bind (·[i % n]?) = some r ∧
          ∃ found, answers.lookup r.key = some found ∧ ∀ data, found = some data ↔
            ∃ returned, replied[i / n]? = some (some returned) ∧ returned[i % n]? = some (some data)) ∧
      ∀ returned, returned.length = reads.length → replied = (parts size returned).map some →
        answered = .ok ((reads.map (·.key)).zip returned).reverse := by
  intro n replied answered
  refine ⟨run_eq_error_iff h size reads s, ?_, fun returned hlength hreplied => run_of_parts h hlength hreplied⟩
  intro hsome
  refine ⟨(reads.mapIdx fun i r => (r.key, told size replied i)).reverse, ?_, ?_, ?_⟩
  · rw [show answered = _ from run_apply h size reads s, if_neg hsome]
  · rw [List.map_reverse, map_fst_mapIdx]
    exact List.reverse_perm _
  · intro i r hr
    exact ⟨(getElem?_parts size reads i).trans hr, told size replied i, lookup_mapIdx distinct _ hr,
      fun data => told_eq_some_iff⟩

/-- Five reads in parts of two, of which the second part fails. The contract of the second read rolls it back. -/
theorem run_answers_secondFails :
    let read (n : Nat) : KeyedRead Nat := ⟨n, ⟨.ofNat n, []⟩⟩
    let reads := [read 5, read 6, read 7, read 8, read 9]
    let s : Recorded.State := { returns := [5, 7, 8, 9].map fun n => ((read n).read, [1]), failing := [1] }
    Recorded.node.Whole none ∧ (reads.map (·.key)).Nodup ∧
      (replies Recorded.node none (parts 2 reads) s).1 = [some [some [1], none], none, some [some [1]]] ∧
      ∃ answers, (run Recorded.node 2 none reads s).1 = .ok answers ∧ (answers.map (·.1)).Perm [5, 6, 7, 8, 9] ∧
        answers.lookup 5 = some (some [1]) ∧ answers.lookup 8 = some none := by
  intro read reads s
  have distinct : (reads.map (·.key)).Nodup := by decide
  have hreplied : (replies Recorded.node none (parts 2 reads) s).1 =
      [some [some [1], none], none, some [some [1]]] := by decide +kernel
  obtain ⟨-, hsome, -⟩ := run_answers (Recorded.node_whole none) distinct 2 s
  rw [hreplied] at hsome
  obtain ⟨answers, hanswers, hkeys, hfound⟩ := hsome (by simp)
  obtain ⟨-, found, hlookup, htold⟩ := hfound 0 (read 5) rfl
  obtain ⟨-, found', hlookup', htold'⟩ := hfound 3 (read 8) rfl
  obtain rfl : found = some [1] := (htold [1]).2 ⟨_, rfl, rfl⟩
  obtain rfl : found' = none := by
    rw [Option.eq_none_iff_forall_ne_some]
    intro data hdata
    obtain ⟨returned, hreply, -⟩ := (htold' data).1 hdata
    cases hreply
  exact ⟨Recorded.node_whole none, distinct, hreplied, answers, hanswers, hkeys, hlookup, hlookup'⟩

end Batch
end Searcher
