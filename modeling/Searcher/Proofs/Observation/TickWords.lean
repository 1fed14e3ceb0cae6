/-
# Tick words that are told in full

A word of the bitmap is worth nothing without the changes of liquidity at its marks: a quote takes the change at a mark
that has none for zero. So a word goes into the cache with all of them or not at all. The marks of a word are those that
are read for it, as numbers of 32 bits (`Bitmap.initializedTicks`).

The changes are told in two ways (`WantedWords.TellsNet`), by the lens for a whole word, or by the pool tick by tick. A
word is incomplete if its bitmap is missing, or the change at one of its marks, whichever way it was asked for. What is
made of a word after both batches is then *settled*: it is left out exactly if it is incomplete, and otherwise it has
its bitmap and a change at each of its marks (`WantedWords.settled`).

That the lens lists the marks of a word is a property of the lens (`WantedWords.LensLists`). The cache is changed behind
the last question, so a filling that fails has changed nothing (`ChainReader.fillWords_cases`).

What is read has the width of its type. So a pool that was loaded, quoted with changes from complete words, meets the
bounds under which a swap is led right: its spacing has 24 bits with a sign, its liquidity 128 bits, and each change at
a mark 128 bits with a sign (`Concentrated.state?_fits`, `WantedWords.Complete.netAt_fits`).
-/

import Mathlib.Data.List.Forall2
import Mathlib.Data.List.Perm.Basic
import Mathlib.Data.Nat.Bitwise
import Searcher.Observation.Concentrated
import Searcher.Observation.TickWords
import Searcher.Proofs.Node.Replies

namespace Searcher

/-! ### What is read has the width of its type -/

/-- Bytes write a number of as many digits in base 256. -/
theorem Bytes.foldl_lt (bs : Bytes) (acc : ℕ) :
    bs.foldl (fun acc b => acc * 256 + b.toNat) acc < (acc + 1) * 256 ^ bs.length := by
  induction bs generalizing acc with
  | nil => simp
  | cons b bs ih =>
    have hb : b.toNat < 256 := b.toNat_lt
    calc (b :: bs).foldl (fun acc b => acc * 256 + b.toNat) acc
        < (acc * 256 + b.toNat + 1) * 256 ^ bs.length := ih _
      _ ≤ ((acc + 1) * 256) * 256 ^ bs.length := Nat.mul_le_mul_right _ (by omega)
      _ = (acc + 1) * 256 ^ (b :: bs).length := by rw [List.length_cons, Nat.pow_succ', Nat.mul_assoc]

/-- A word that is read has 256 bits: it is made of 32 bytes. -/
theorem Abi.word?_lt {data : Bytes} {n : ℕ} (h : word? data = some n) : n < 2 ^ 256 := by
  obtain ⟨part, hpart, rfl⟩ := Option.map_eq_some_iff.1 h
  have hlength : part.length = 32 := by
    simp only [Bytes.slice?, Option.ite_none_right_eq_some, Option.some.injEq] at hpart
    rw [← hpart.2, hpart.1]
  have hlt := Bytes.foldl_lt part 0
  rw [hlength] at hlt
  exact hlt.trans_eq rfl

/-- So has every word that is observed. -/
theorem Observed.word?_lt {o : Observed} {contract : Address} {field : Field} {n : ℕ}
    (h : o.word? contract field = some n) : n < 2 ^ 256 := by
  obtain ⟨data, -, hdata⟩ := Option.bind_eq_some_iff.1 h
  exact Abi.word?_lt hdata

/-- A number of so many bits and a sign has this width, whatever word it was read from. -/
theorem Abi.toInt_fits (bits n : ℕ) : -2 ^ bits ≤ toInt (bits + 1) n ∧ toInt (bits + 1) n < 2 ^ bits := by
  have hcast : ((2 ^ bits : ℕ) : ℤ) = 2 ^ bits := Int.natCast_pow 2 bits
  have hhalf : 2 ^ (bits + 1) = 2 * 2 ^ bits := Nat.pow_succ'
  have hpos : 0 < 2 ^ (bits + 1) := Nat.two_pow_pos _
  have hlow := Int.le_bmod (x := n) hpos
  have hhigh := Int.bmod_lt (x := n) hpos
  unfold toInt
  omega

/-- **A pool that was loaded has numbers of their widths.** Its spacing is positive and has 24 bits with a sign, and its
liquidity has 128 bits. -/
theorem Concentrated.state?_fits {o : Observed} {pool : Address} {exchange : Exchange} {state : PoolState}
    (h : state? o pool exchange = some state) : ∃ s : ConcentratedState,
      state = .concentrated s ∧ 0 < s.spacing ∧ s.spacing < 2 ^ 23 ∧ s.liquidity < 2 ^ 128 := by
  unfold state? at h
  obtain ⟨liquidity, -, h⟩ := Option.bind_eq_some_iff.1 h
  obtain ⟨word, -, h⟩ := Option.bind_eq_some_iff.1 h
  obtain ⟨⟨sqrtPrice, tick, fee⟩, -, h⟩ := Option.bind_eq_some_iff.1 h
  simp only at h
  rcases Int.lt_or_le 0 (Abi.toInt 24 word) with hpos | hnot
  · rw [if_neg (Int.not_le.2 hpos)] at h
    obtain rfl := Option.some.inj h
    refine ⟨_, rfl, ?_⟩
    dsimp only
    exact ⟨hpos, (Abi.toInt_fits 23 word).2, Nat.mod_lt liquidity (Nat.two_pow_pos 128)⟩
  · rw [if_pos hnot] at h
    cases h

/-! ### The marks of a word -/

namespace Bitmap

/-- An empty bitmap has no positions. -/
@[simp] theorem setBits_zero : setBits 0 = [] := by
  simp [setBits]

/-- A word that is not zero has a bit set among its 256. -/
theorem exists_mem_setBits {bitmap : ℕ} (hbitmap : bitmap ≠ 0) (hlt : bitmap < 2 ^ 256) :
    ∃ bit, bit ∈ setBits bitmap := by
  obtain ⟨bit, hset⟩ := Nat.exists_testBit_of_ne_zero hbitmap
  have hbit : bit < 256 := (Nat.pow_lt_pow_iff_right (by decide)).1 ((Nat.ge_two_pow_of_testBit hset).trans_lt hlt)
  exact ⟨bit, mem_setBits.2 ⟨hbit, hset⟩⟩

/-- The change at a tick is one that is stated for it, or none is and it is zero. -/
theorem netAt_cases (nets : List (ℤ × ℤ)) (tick : ℤ) :
    (tick, netAt nets tick) ∈ nets ∨ (∀ net ∈ nets, net.1 ≠ tick) ∧ netAt nets tick = 0 := by
  rcases hfound : nets.find? fun entry => entry.1 = tick with _ | found
  · refine .inr ⟨fun net hnet heq => ?_, by rw [netAt, hfound]; rfl⟩
    exact List.find?_eq_none.1 hfound net hnet (decide_eq_true heq)
  · have hsame := List.find?_some hfound
    obtain rfl : found.1 = tick := of_decide_eq_true hsame
    rw [netAt, hfound]
    exact .inl (List.mem_of_find?_eq_some hfound)

end Bitmap

namespace WantedWords

/-- The change of liquidity at a tick was told: by the pool, or by the lens among those of the word. -/
def TellsNet (o ticks : Observed) (w : WantedWords) (word : ℤ) (net : ℤ × ℤ) : Prop :=
  if w.isTickwise then tickNet? ticks w.pool net.1 = some net
  else ∃ words, o.array? w.pool (.nets word) 3 = some words ∧ net ∈ netsOfWords words

/-- Something is missing of a word: its bitmap, or the change at a tick that it marks. -/
def Incomplete (o ticks : Observed) (w : WantedWords) (word : ℤ) : Prop :=
  ∀ bitmap, o.word? w.pool (.bitmap word) = some bitmap →
    ∃ tick ∈ Bitmap.initializedTicks word bitmap w.spacing, ∀ net, ¬ TellsNet o ticks w word (tick, net)

/-- An entry of the cache for a word: its bitmap as it was read at the block, and a change that was told for each of its
marks. -/
structure Complete (o ticks : Observed) (block : ℕ) (w : WantedWords) (word : ℤ) (entry : WordKey × TickWord) :
    Prop where
  key : entry.1 = ⟨w.pool, word⟩
  block : entry.2.block = block
  bitmap : o.word? w.pool (.bitmap word) = some entry.2.bitmap
  marks : (entry.2.nets.map (·.1)).Perm (Bitmap.initializedTicks word entry.2.bitmap w.spacing)
  told : ∀ net ∈ entry.2.nets, TellsNet o ticks w word net

/-- What became of a wanted word: nothing if it is incomplete, and a complete entry otherwise. -/
structure Settled (o ticks : Observed) (block : ℕ) (wanted : WantedWords × ℤ) (entry : Option (WordKey × TickWord)) :
    Prop where
  leftOut : entry = none ↔ Incomplete o ticks wanted.1 wanted.2
  complete : ∀ e ∈ entry, Complete o ticks block wanted.1 wanted.2 e

/-- The lens lists a change at each mark of a word, and no other, as far as it answers. -/
def LensLists (o : Observed) (w : WantedWords) (word : ℤ) : Prop :=
  w.isTickwise = false → ∀ bitmap ∈ o.word? w.pool (.bitmap word), ∀ words ∈ o.array? w.pool (.nets word) 3,
    ((netsOfWords words).map (·.1)).Perm (Bitmap.initializedTicks word bitmap w.spacing)

instance (o : Observed) (w : WantedWords) (word : ℤ) : Decidable (LensLists o w word) := by
  unfold LensLists
  infer_instance

variable {o ticks : Observed} {block : ℕ} {w : WantedWords} {word : ℤ} {bitmap : ℕ} {nets : List (ℤ × ℤ)}
  {entry : WordKey × TickWord} {wanted : List WantedWords}

/-! ### The widths of what is read -/

/-- Every net liquidity among the words of an answer has 128 bits, because only the low half of a word is taken for
it. -/
theorem fits_of_mem_netsOfWords {words : List ℕ} {net : ℤ × ℤ} (h : net ∈ netsOfWords words) :
    -2 ^ 127 ≤ net.2 ∧ net.2 < 2 ^ 127 := by
  fun_induction netsOfWords words with
  | case1 tick change gross rest ih =>
    rcases List.mem_cons.1 h with rfl | h
    · dsimp only
      exact Abi.toInt_fits 127 change
    · exact ih h
  | case2 => cases h

/-- A change that was told is a number of 128 bits with a sign, whichever way it was asked for. -/
theorem TellsNet.fits {net : ℤ × ℤ} (h : TellsNet o ticks w word net) : -2 ^ 127 ≤ net.2 ∧ net.2 < 2 ^ 127 := by
  unfold TellsNet at h
  split at h
  · unfold tickNet? at h
    obtain ⟨words, -, h⟩ := Option.bind_eq_some_iff.1 h
    split at h
    · rw [← Option.some.inj h]
      dsimp only
      exact Abi.toInt_fits 127 _
    · cases h
  · obtain ⟨words, -, hmem⟩ := h
    exact fits_of_mem_netsOfWords hmem

namespace Complete

/-- Nothing is missing of a complete word. -/
theorem not_incomplete (h : Complete o ticks block w word entry) : ¬ Incomplete o ticks w word := by
  intro hmissing
  obtain ⟨tick, htick, hnone⟩ := hmissing entry.2.bitmap h.bitmap
  obtain ⟨net, hnet, rfl⟩ := List.mem_map.1 (h.marks.mem_iff.2 htick)
  exact hnone net.2 (h.told net hnet)

/-- **A quote finds the change that was told.** At a mark of a complete word the change that a quote reads is one that
was told for this tick, by the pool or by the lens. -/
theorem tellsNet_netAt (h : Complete o ticks block w word entry) {tick : ℤ}
    (htick : tick ∈ Bitmap.initializedTicks word entry.2.bitmap w.spacing) :
    TellsNet o ticks w word (tick, Bitmap.netAt entry.2.nets tick) := by
  obtain ⟨net, hnet, hfirst⟩ := List.mem_map.1 (h.marks.mem_iff.2 htick)
  rcases Bitmap.netAt_cases entry.2.nets tick with hstated | ⟨hnone, -⟩
  · exact h.told _ hstated
  · exact absurd hfirst (hnone net hnet)

/-- The change that a quote reads is a number of 128 bits with a sign: it was told, or the tick has no mark and it is
zero. -/
theorem netAt_fits (h : Complete o ticks block w word entry) (tick : ℤ) :
    -2 ^ 127 ≤ Bitmap.netAt entry.2.nets tick ∧ Bitmap.netAt entry.2.nets tick < 2 ^ 127 := by
  rcases Bitmap.netAt_cases entry.2.nets tick with hstated | ⟨-, hzero⟩
  · exact (h.told _ hstated).fits
  · rw [hzero]
    decide

end Complete

/-! ### The two ways to tell a word -/

/-- What is told of a tick is about this tick. -/
theorem fst_tickNet? {pool : Address} {tick : ℤ} {net : ℤ × ℤ} (h : tickNet? ticks pool tick = some net) :
    net.1 = tick := by
  unfold tickNet? at h
  obtain ⟨words, -, h⟩ := Option.bind_eq_some_iff.1 h
  split at h
  · rw [← Option.some.inj h]
  · cases h

/-- Where every tick is told there is one change for each. -/
theorem map_fst_of_mapM {pool : Address} {marks : List ℤ} (h : marks.mapM (tickNet? ticks pool) = some nets) :
    nets.map (·.1) = marks ∧ ∀ net ∈ nets, tickNet? ticks pool net.1 = some net := by
  induction marks generalizing nets with
  | nil =>
    obtain rfl : [] = nets := Option.some.inj h
    exact ⟨rfl, fun net hnet => by cases hnet⟩
  | cons tick marks ih =>
    rw [List.mapM_cons] at h
    obtain ⟨net, hnet, h⟩ := Option.bind_eq_some_iff.1 h
    obtain ⟨rest, hrest, h⟩ := Option.bind_eq_some_iff.1 h
    obtain rfl : net :: rest = nets := Option.some.inj h
    obtain ⟨hmarks, htold⟩ := ih hrest
    obtain rfl : net.1 = tick := fst_tickNet? hnet
    constructor
    · rw [List.map_cons, hmarks]
    · intro other hother
      rcases List.mem_cons.1 hother with rfl | hother
      · exact hnet
      · exact htold other hother

/-- If the ticks of a row are not all told something, one of them is told nothing. -/
theorem exists_of_mapM_eq_none {pool : Address} {marks : List ℤ} (h : marks.mapM (tickNet? ticks pool) = none) :
    ∃ tick ∈ marks, tickNet? ticks pool tick = none := by
  induction marks with
  | nil => cases h
  | cons tick marks ih =>
    rcases htick : tickNet? ticks pool tick with _ | net
    · exact ⟨tick, List.mem_cons_self, htick⟩
    · rcases hrest : marks.mapM (tickNet? ticks pool) with _ | rest
      · obtain ⟨other, hother, hnone⟩ := ih hrest
        exact ⟨other, List.mem_cons_of_mem _ hother, hnone⟩
      · rw [List.mapM_cons, htick, hrest] at h
        cases h

/-- The changes of a word that were put together are those at its marks, as they were told. -/
theorem nets?_of_some (hlens : LensLists o w word) (hbitmap : o.word? w.pool (.bitmap word) = some bitmap)
    (h : nets? o ticks w word bitmap = some nets) :
    (nets.map (·.1)).Perm (Bitmap.initializedTicks word bitmap w.spacing) ∧
      ∀ net ∈ nets, TellsNet o ticks w word net := by
  unfold nets? at h
  rcases hkind : w.isTickwise
  · rw [hkind, if_neg Bool.false_ne_true] at h
    split at h
    · -- a word without marks, for which the lens does not matter
      rename_i hzero
      obtain rfl := Option.some.inj h
      rw [hzero, Bitmap.initializedTicks, Bitmap.setBits_zero]
      exact ⟨.refl _, fun net hnet => by cases hnet⟩
    · obtain ⟨words, hwords, rfl⟩ := Option.map_eq_some_iff.1 h
      refine ⟨hlens hkind bitmap hbitmap words hwords, ?_⟩
      intro net hnet
      rw [TellsNet, hkind, if_neg Bool.false_ne_true]
      exact ⟨words, hwords, hnet⟩
  · rw [hkind, if_pos rfl] at h
    obtain ⟨hmarks, htold⟩ := map_fst_of_mapM h
    rw [hmarks]
    refine ⟨.refl _, ?_⟩
    intro net hnet
    rw [TellsNet, hkind, if_pos rfl]
    exact htold net hnet

/-- If the nets of a word are not found, one of its ticks is told no net liquidity at all. -/
theorem nets?_of_none (hlt : bitmap < 2 ^ 256) (h : nets? o ticks w word bitmap = none) :
    ∃ tick ∈ Bitmap.initializedTicks word bitmap w.spacing, ∀ net, ¬ TellsNet o ticks w word (tick, net) := by
  unfold nets? at h
  rcases hkind : w.isTickwise
  · rw [hkind, if_neg Bool.false_ne_true] at h
    split at h
    · cases h
    · -- the lens is silent about the whole word, which has marks
      rename_i hne
      obtain ⟨bit, hbit⟩ := Bitmap.exists_mem_setBits hne hlt
      refine ⟨_, List.mem_map.2 ⟨bit, hbit, rfl⟩, fun net htold => ?_⟩
      rw [TellsNet, hkind, if_neg Bool.false_ne_true] at htold
      obtain ⟨words, hwords, -⟩ := htold
      rw [hwords] at h
      cases h
  · rw [hkind, if_pos rfl] at h
    obtain ⟨tick, htick, hnone⟩ := exists_of_mapM_eq_none h
    refine ⟨tick, htick, fun net htold => ?_⟩
    rw [TellsNet, hkind, if_pos rfl, hnone] at htold
    cases htold

/-- **A word is left out exactly if something is missing of it.** -/
theorem settled (hlens : LensLists o w word) (ticks : Observed) (block : ℕ) :
    Settled o ticks block (w, word) (WantedWords.entry? o ticks block w word) := by
  unfold entry?
  rcases hbitmap : o.word? w.pool (.bitmap word) with _ | bitmap
  · refine ⟨⟨fun _ bitmap hsome => ?_, fun _ => rfl⟩, fun e he => by cases he⟩
    rw [hbitmap] at hsome
    cases hsome
  · rcases hnets : nets? o ticks w word bitmap with _ | nets
    · refine ⟨⟨fun _ other hother => ?_, fun _ => by simp [hnets]⟩, fun e he => by simp [hnets] at he⟩
      obtain rfl : bitmap = other := Option.some.inj (hbitmap.symm.trans hother)
      exact nets?_of_none (Observed.word?_lt hbitmap) hnets
    · obtain ⟨hmarks, htold⟩ := nets?_of_some hlens hbitmap hnets
      have hcomplete : Complete o ticks block w word (⟨w.pool, word⟩, ⟨bitmap, nets, block⟩) := {
        key := rfl
        block := rfl
        bitmap := hbitmap
        marks := hmarks
        told := htold }
      constructor
      · refine ⟨fun hnone => by simp [hnets] at hnone, fun hmissing => absurd hmissing hcomplete.not_incomplete⟩
      · intro e he
        obtain rfl : _ = e := by simpa [hnets] using he
        exact hcomplete

/-- The wanted words are those of its entries. -/
theorem mem_each {p : WantedWords × ℤ} : p ∈ each wanted Prod.mk ↔ p.1 ∈ wanted ∧ p.2 ∈ p.1.words := by
  rcases p with ⟨w, word⟩
  simp only [each, List.mem_flatMap, List.mem_map, Prod.mk.injEq]
  constructor
  · rintro ⟨v, hv, n, hn, rfl, rfl⟩
    exact ⟨hv, hn⟩
  · rintro ⟨hw, hword⟩
    exact ⟨w, hw, word, hword, rfl, rfl⟩

/-- A value for each wanted word of each pool may be computed before the words are put in a row, or after. -/
theorem map_each {α : Type} (wanted : List WantedWords) (f : WantedWords → ℤ → α) :
    (each wanted Prod.mk).map (fun p => f p.1 p.2) = each wanted f := by
  simp only [each, List.map_flatMap, List.map_map]
  rfl

/-- After both batches every wanted word is settled. -/
theorem forall₂_settled (hlens : ∀ w ∈ wanted, ∀ word ∈ w.words, LensLists o w word) (ticks : Observed) (block : ℕ) :
    List.Forall₂ (Settled o ticks block) (each wanted Prod.mk) (each wanted (WantedWords.entry? o ticks block)) := by
  rw [← map_each wanted (WantedWords.entry? o ticks block), List.forall₂_map_right_iff, List.forall₂_same]
  intro p hp
  obtain ⟨hw, hword⟩ := mem_each.1 hp
  exact settled (hlens p.1 hw p.2 hword) ticks block

/-- An entry that was made is complete, for one of the wanted words. -/
theorem exists_complete (hlens : ∀ w ∈ wanted, ∀ word ∈ w.words, LensLists o w word)
    (h : some entry ∈ each wanted (WantedWords.entry? o ticks block)) :
    ∃ w ∈ wanted, ∃ word ∈ w.words, Complete o ticks block w word entry := by
  rw [← map_each] at h
  obtain ⟨p, hp, hentry⟩ := List.mem_map.1 h
  obtain ⟨hw, hword⟩ := mem_each.1 hp
  exact ⟨p.1, hw, p.2, hword, (settled (hlens p.1 hw p.2 hword) ticks block).complete entry hentry⟩

end WantedWords

/-! ### Filling a cache -/

namespace TickCache

/-- The cache after some words were put into it one after the other. -/
def insertAll (cache : TickCache) (entries : List (WordKey × TickWord)) : TickCache :=
  entries.foldl (fun cache entry => cache.insert entry.1 entry.2) cache

/-- Storing puts in the words that were filled, in order, and counts them. -/
theorem store_apply (entries : List (Option (WordKey × TickWord))) (cache : TickCache) :
    store entries cache = ((entries.filterMap id).length, cache.insertAll (entries.filterMap id)) := by
  induction entries generalizing cache with
  | nil => rfl
  | cons entry entries ih =>
    rcases entry with _ | ⟨key, word⟩
    · exact ih cache
    · change ((store entries (cache.insert key word)).1 + 1, (store entries (cache.insert key word)).2) = _
      rw [ih]
      rfl

/-- What is in the cache was in it before, or was put into it. -/
theorem mem_insertAll {cache : TickCache} {entries : List (WordKey × TickWord)} {entry : WordKey × TickWord}
    (h : entry ∈ (cache.insertAll entries).entries) : entry ∈ cache.entries ∨ entry ∈ entries := by
  induction entries generalizing cache with
  | nil => exact .inl h
  | cons first rest ih =>
    rcases ih h with hold | hrest
    · rcases List.mem_cons.1 hold with rfl | hkept
      · exact .inr List.mem_cons_self
      · exact .inl (List.mem_filter.1 (List.mem_of_mem_take hkept)).1
    · exact .inr (List.mem_cons_of_mem _ hrest)

end TickCache

namespace ChainReader

variable {σ : Type}

/-- What a filling can do: a batch fails and the cache is as it was, or both are observed and what became of the words
is put into the cache. -/
theorem fillWords_cases (reader : ChainReader σ) (wanted : List WantedWords) (block : ℕ) (cache : TickCache) (s : σ) :
    (∃ e s', reader.fillWords wanted block (cache, s) = (.error e, cache, s')) ∨
      ∃ o s₁ ticks s₂, reader.observeAny (WantedWords.wordQuestionsOf wanted) block s = (.ok o, s₁) ∧
        reader.observeAny (WantedWords.tickQuestionsOf o wanted) block s₁ = (.ok ticks, s₂) ∧
        let entries := (WantedWords.each wanted (WantedWords.entry? o ticks block)).filterMap id
        reader.fillWords wanted block (cache, s) = (.ok entries.length, cache.insertAll entries, s₂) := by
  rcases hwords : reader.observeAny (WantedWords.wordQuestionsOf wanted) block s with ⟨e | o, s₁⟩
  · refine .inl ⟨e, s₁, ?_⟩
    rw [fillWords, Reading.beside_bind_of_error (congrArg Prod.fst hwords), hwords]
  rcases hticks : reader.observeAny (WantedWords.tickQuestionsOf o wanted) block s₁ with ⟨e | ticks, s₂⟩
  · refine .inl ⟨e, s₂, ?_⟩
    rw [fillWords, Reading.beside_bind_of_ok (congrArg Prod.fst hwords), hwords,
      Reading.beside_bind_of_error (congrArg Prod.fst hticks), hticks]
  · refine .inr ⟨o, s₁, ticks, s₂, rfl, hticks, ?_⟩
    intro entries
    have hstored := TickCache.store_apply (WantedWords.each wanted (WantedWords.entry? o ticks block)) cache
    rw [fillWords, Reading.beside_bind_of_ok (congrArg Prod.fst hwords), hwords,
      Reading.beside_bind_of_ok (congrArg Prod.fst hticks), hticks]
    exact congrArg (fun stored : ℕ × TickCache => (Except.ok (ε := ReadError) stored.1, stored.2, s₂)) hstored

/-- **Only complete words enter the cache.** Let the lens list the marks of each wanted word for which it answers. If
the filling fails, the cache is as it was. Otherwise both batches were observed, and every wanted word was settled by
them: it was left out exactly if its bitmap is missing or the change at one of its marks, and else made into an entry
that has its bitmap, the block and a change at each mark. These entries were counted and put into the cache in order, so
that whatever is in the cache now was in it before or is a complete entry of a wanted word. -/
theorem fillWords_complete (reader : ChainReader σ) (wanted : List WantedWords) (block : ℕ) (s : σ)
    (lens : ∀ o s₁, reader.observeAny (WantedWords.wordQuestionsOf wanted) block s = (.ok o, s₁) →
      ∀ w ∈ wanted, ∀ word ∈ w.words, WantedWords.LensLists o w word) (cache : TickCache) :
    let result := reader.fillWords wanted block (cache, s)
    (∀ e, result.1 = .error e → result.2.1 = cache) ∧
      ∀ k, result.1 = .ok k → ∃ o s₁ ticks s₂ entries,
        reader.observeAny (WantedWords.wordQuestionsOf wanted) block s = (.ok o, s₁) ∧
        reader.observeAny (WantedWords.tickQuestionsOf o wanted) block s₁ = (.ok ticks, s₂) ∧
        List.Forall₂ (WantedWords.Settled o ticks block) (WantedWords.each wanted Prod.mk) entries ∧
        k = (entries.filterMap id).length ∧ result.2.1 = cache.insertAll (entries.filterMap id) ∧
        ∀ entry ∈ result.2.1.entries, entry ∈ cache.entries ∨
          ∃ w ∈ wanted, ∃ word ∈ w.words, WantedWords.Complete o ticks block w word entry := by
  intro result
  obtain ⟨e, s', hresult⟩ | ⟨o, s₁, ticks, s₂, hwords, hticks, hresult⟩ :=
    reader.fillWords_cases wanted block cache s
  · rw [show result = _ from hresult]
    refine ⟨fun _ _ => rfl, ?_⟩
    intro k hok
    cases hok
  set entries := WantedWords.each wanted (WantedWords.entry? o ticks block)
  rw [show result = (.ok (entries.filterMap id).length, cache.insertAll (entries.filterMap id), s₂) from hresult]
  constructor
  · intro e herror
    cases herror
  intro k hok
  obtain rfl := Except.ok.inj hok
  have hlens := lens o s₁ hwords
  refine ⟨o, s₁, ticks, s₂, entries, hwords, hticks, WantedWords.forall₂_settled hlens ticks block, rfl, rfl, ?_⟩
  intro entry hentry
  rcases TickCache.mem_insertAll hentry with hold | hnew
  · exact .inl hold
  · exact .inr (WantedWords.exists_complete hlens (by simpa using hnew))

end ChainReader

/-- A node with prepared replies, which fails where there is none. -/
def Node.prepared : Node (List Reply) where
  request _ _ := throw .unreadable
  readAll _ _ := fun replies => (replies.head?.join, replies.tail)

/-- Two words each of a pool that the lens is asked for and of one that is asked tick by tick. The question about the
second word of the first pool fails, and the tick that the second word of the other one marks is rolled back. The other
two words are marked at two ticks and at one. -/
theorem ChainReader.fillWords_complete_halfTold :
    let pools : List WantedWords := [⟨.ofNat 1, .pancakeswapV3, 60, [0, 1]⟩, ⟨.ofNat 2, .thenaFusion, 60, [0, -1]⟩]
    let data (words : List ℕ) : Option Bytes := some (words.flatMap Abi.wordBytes)
    let replies : List Reply := [some [data [5], data [32, 2, 0, 7, 9, 120, 3, 9]], none,
      some [data [2], data [2 ^ 255]], some [data [0, 4, 0, 0, 0, 0, 0, 0], none]]
    let reader : ChainReader (List Reply) := ⟨.prepared, 2⟩
    let result := reader.fillWords pools 7 (.empty 4, replies)
    (∀ o s₁, reader.observeAny (WantedWords.wordQuestionsOf pools) (some 7) replies = (.ok o, s₁) →
        ∀ w ∈ pools, ∀ word ∈ w.words, WantedWords.LensLists o w word) ∧
      result.1 = .ok 2 ∧
      result.2.1.entries = [(⟨.ofNat 2, 0⟩, ⟨2, [(60, 4)], 7⟩), (⟨.ofNat 1, 0⟩, ⟨5, [(0, 7), (120, 3)], 7⟩)] ∧
      ∃ o ticks, ∀ entry ∈ result.2.1.entries,
        ∃ w ∈ pools, ∃ word ∈ w.words, WantedWords.Complete o ticks 7 w word entry := by
  intro pools data replies reader result
  have lens : ∀ o ∈ (reader.observeAny (WantedWords.wordQuestionsOf pools) (some 7) replies).1.toOption,
      ∀ w ∈ pools, ∀ word ∈ w.words, WantedWords.LensLists o w word := by decide +kernel
  have hlens : ∀ o s₁, reader.observeAny (WantedWords.wordQuestionsOf pools) (some 7) replies = (.ok o, s₁) →
      ∀ w ∈ pools, ∀ word ∈ w.words, WantedWords.LensLists o w word := by
    intro o s₁ ho
    exact lens o (by rw [ho]; rfl)
  have hdone : result.1.toOption = some 2 := by decide +kernel
  have hdone : result.1 = .ok 2 := by
    rcases hresult : result.1 with e | k
    · rw [hresult] at hdone
      cases hdone
    · rw [hresult] at hdone
      rw [Option.some.inj hdone]
  have hentries : result.2.1.entries =
      [(⟨.ofNat 2, 0⟩, ⟨2, [(60, 4)], 7⟩), (⟨.ofNat 1, 0⟩, ⟨5, [(0, 7), (120, 3)], 7⟩)] := by decide +kernel
  refine ⟨hlens, hdone, hentries, ?_⟩
  obtain ⟨-, hcomplete⟩ := reader.fillWords_complete pools 7 replies hlens (.empty 4)
  obtain ⟨o, s₁, ticks, s₂, entries, -, -, -, -, -, hcomplete⟩ := hcomplete 2 hdone
  refine ⟨o, ticks, ?_⟩
  intro entry hentry
  rcases hcomplete entry hentry with hold | hnew
  · cases hold
  · exact hnew

end Searcher
