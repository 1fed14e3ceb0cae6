/-
# Caches that agree with the chain

A cache *agrees* with a chain at a block when each word in it that is fresh at that block is the chain's. Using a word
moves it to the front and changes nothing that can be found; an insertion adds one word and may drop others. So reads
keep the agreement, and so does the insertion of words of the chain, whatever the capacity is and whichever words make
room. Read through a cache that agrees, the ticks of a pool follow those of the chain (`Agrees.follows_source`).
-/

import Searcher.Proofs.Loading.Follows

namespace Searcher

/-- The tick words of every pool on a chain. -/
abbrev ChainWords := Address → Int → TickWord

namespace TickCache

variable {cache : TickCache} {chain : ChainWords} {block : Nat} {key k : WordKey} {word w : TickWord}

/-- The fresh words of the cache are the chain's. -/
def Agrees (cache : TickCache) (chain : ChainWords) (block : Nat) : Prop :=
  ∀ key word, cache.find? key = some word → block ≤ word.block →
    word.bitmap = (chain key.pool key.word).bitmap ∧ word.nets = (chain key.pool key.word).nets

/-- A cache that holds nothing agrees with every chain. -/
theorem agrees_empty (capacity : Nat) : (empty capacity).Agrees chain block := by
  intro key word h
  simp [empty, find?] at h

/-- The first entry of a key is the one that is found. -/
theorem find?_cons (cache : TickCache) (entries : List (WordKey × TickWord)) (key k : WordKey) (word : TickWord) :
    find? { cache with entries := (key, word) :: entries } k =
      if key = k then some word else find? { cache with entries } k := by
  by_cases h : key = k
  · simp [find?, h]
  · simp [find?, h]

/-- Leaving out the entries of one key loses no other. -/
theorem find?_others (h : key ≠ k) : find? { cache with entries := cache.others key } k = cache.find? k := by
  unfold find? others
  congr 1
  rw [List.find?_filter]
  congr 1
  funext entry
  by_cases hk : entry.1 = k
  · simp [hk, h.symm]
  · simp [hk]

/-- Touching a key moves its entry and changes none. -/
@[simp] theorem find?_touch (cache : TickCache) (key k : WordKey) : (cache.touch key).find? k = cache.find? k := by
  unfold touch
  rcases hw : cache.find? key with _ | word
  · rfl
  · simp only [find?_cons]
    split
    · rename_i h
      rw [← h, hw]
    · rename_i h
      exact find?_others h

/-- What is found after a word is put in is that word, or was there before. What the cache drops is not found. -/
theorem find?_insert (h : (cache.insert key word).find? k = some w) :
    key = k ∧ word = w ∨ cache.find? k = some w := by
  rw [insert, find?_cons] at h
  split at h
  · rename_i hk
    exact .inl ⟨hk, Option.some.inj h⟩
  · rename_i hk
    refine .inr ?_
    -- what is found among the words that were kept is the first one of its key among all
    rw [← find?_others hk]
    obtain ⟨entry, he, rfl⟩ := Option.map_eq_some_iff.1 h
    simp only [find?]
    rw [← List.take_append_drop cache.spare (cache.others key), List.find?_append, he]
    rfl

namespace Agrees

/-- So a cache agrees with the chain after a key was touched. -/
theorem touch (h : cache.Agrees chain block) (key : WordKey) : (cache.touch key).Agrees chain block := by
  intro k w hw
  rw [find?_touch] at hw
  exact h k w hw

/-- It agrees after a word of the chain was put in, under whatever tag. -/
theorem insert (h : cache.Agrees chain block) (key : WordKey) (tag : Nat) :
    (cache.insert key { chain key.pool key.word with block := tag }).Agrees chain block := by
  intro k w hw hb
  obtain ⟨rfl, rfl⟩ | hw := find?_insert hw
  · exact ⟨rfl, rfl⟩
  · exact h k w hw hb

/-- And after any row of words of one pool was, as one loading puts them in. -/
theorem insert_all (h : cache.Agrees chain block) (pool : Address) (tag : Nat) (words : List Int) :
    (words.foldl (fun cache word => cache.insert ⟨pool, word⟩ { chain pool word with block := tag }) cache).Agrees
      chain block := by
  induction words generalizing cache with
  | nil => exact h
  | cons word words ih => exact ih (h.insert ⟨pool, word⟩ tag)

end Agrees

/-- Reading a word touches its key, and reports the word as missing if no entry is recent enough. -/
theorem read_apply (pool : Address) (block : Nat) (word : Int) (cache : TickCache) :
    read pool block word cache =
      (match (cache.get ⟨pool, word⟩ block).1 with
        | some w => .ok w
        | none => .error (.missingTickWord pool word), cache.touch ⟨pool, word⟩) := by
  change (match (cache.get ⟨pool, word⟩ block).1 with
    | some w => Pure.pure w
    | none => MonadExcept.throw _ : Ticking TickCache TickWord) (cache.touch ⟨pool, word⟩) = _
  cases (cache.get ⟨pool, word⟩ block).1 with
  | some w => rfl
  | none => rfl

/-- What is got is an entry that is as recent as was asked for. -/
theorem get_eq_some {key : WordKey} (h : (cache.get key block).1 = some w) :
    cache.find? key = some w ∧ block ≤ w.block := by
  simpa [get, Option.filter_eq_some_iff] using h

/-- **Reading through the cache.** Whatever is asked of a word of a pool, asking it through the cache follows asking
the chain. -/
theorem follows_read {α σ : Type} {known : Address → Prop} {pool : Address} (hk : known pool) (word : Int)
    {f : TickWord → α} (hf : ∀ v w : TickWord, v.bitmap = w.bitmap → v.nets = w.nets → f v = f w) :
    Follows (·.Agrees chain block) known (do return f (← read pool block word))
      (pure (f (chain pool word)) : Ticking σ α) := by
  intro cache h s
  rw [Ticking.bind_apply, read_apply]
  rcases hw : (cache.get ⟨pool, word⟩ block).1 with _ | w
  · exact ⟨h.touch _, .inl ⟨pool, word, hk, rfl⟩⟩
  · obtain ⟨hw, hb⟩ := get_eq_some hw
    obtain ⟨hbits, hnets⟩ := h _ _ hw hb
    refine ⟨h.touch _, .inr ⟨?_, fun pool word e => by cases e⟩⟩
    exact congrArg Except.ok (hf _ _ hbits hnets)

/-- The ticks of a pool, read through the cache, follow those of the chain. -/
theorem follows_source {σ : Type} {known : Address → Prop} {pool : Address} (hk : known pool) :
    (source pool block).Follows (·.Agrees chain block) known (TickSource.complete (σ := σ) (chain pool)) where
  bitmap word := follows_read hk word fun v w hb hn => hb
  net tick spacing := follows_read hk _ fun v w hb hn => by rw [hn]

end TickCache
end Searcher
