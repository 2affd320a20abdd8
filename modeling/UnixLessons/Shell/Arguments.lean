import UnixLessons.Shell.Input
import UnixLessons.Text.Memory
import UnixLessons.Text.Words

/-!
# The arguments of a command

The pipe shell takes a line apart in its input buffer. A `'|'` is overwritten with a
terminator, both commands are trimmed in place, and `strtok` overwrites the space behind
each argument, so that an argument array points into the buffer.

## Main results

* `trim_spec`, `strtok_spec`, `parseArguments_spec`: what each function leaves in the buffer
* `arguments_spec`: the arguments of every line, with a `'|'` or without
-/

namespace UnixLessons.Shell

open Text

/-- Size of the argument arrays. -/
def maxArgs : ℕ := 64

/-- An array of pointers; `none` is `NULL`. -/
abbrev Args := Vector (Option ℤ) maxArgs

def Args.put (args : Args) (i : ℕ) (p : Option ℤ) : Option Args :=
  if h : i < maxArgs then some (args.set i p h) else none

/-- The input buffer, and the place where `strtok` goes on when it is called with `NULL`. -/
structure Buffer where
  memory : Memory
  position : Option ℤ

/-! ### The functions -/

/-- `strtok`. Its searches end within the buffer, which has `maxInputSize` bytes. -/
def strtok (buffer : Buffer) (str : Option ℤ) (delim : List Char) :
    Option (Buffer × Option ℤ) := do
  let start ← str <|> buffer.position
  let token ← buffer.memory.scan (· ∉ delim) maxInputSize start
  -- nothing but delimiters: the next call starts at the terminator again
  if buffer.memory token = some nul then some ({ buffer with position := some token }, none)
  else
    let stop ← buffer.memory.scan (fun c => c ∈ delim ∨ c = nul) maxInputSize token
    if buffer.memory stop = some nul then
      some ({ buffer with position := some stop }, some token)
    else
      let memory ← buffer.memory.store stop nul
      some (⟨memory, some (stop + 1)⟩, some token)

/-- The loop of `parseArguments`, with the number of arguments it ends with. -/
def storeTokens : ℕ → Buffer → Args → Option ℤ → ℕ → Option (Buffer × Args × ℕ)
  | 0, _, _, _, _ => none
  | fuel + 1, buffer, args, token, argCount =>
    -- one place is left for `NULL`
    if token ≠ none ∧ argCount < maxArgs - 1 then do
      let args ← args.put argCount token
      let (buffer, token) ← strtok buffer none [' ']
      storeTokens fuel buffer args token (argCount + 1)
    else some (buffer, args, argCount)

def parseArguments (buffer : Buffer) (str : ℤ) (args : Args) : Option (Buffer × Args) := do
  let (buffer, token) ← strtok buffer (some str) [' ']
  let (buffer, args, argCount) ← storeTokens maxArgs buffer args token 0
  let args ← args.put argCount none
  some (buffer, args)

def strlen (memory : Memory) (str : ℤ) : Option ℤ :=
  (memory.scan (· = nul) maxInputSize str).map (· - str)

/-- The second loop of `trim`, backwards over spaces and at most to the first byte. -/
def skipBack (memory : Memory) (str : ℤ) : ℕ → ℤ → Option ℤ
  | 0, _ => none
  | fuel + 1, last =>
    -- a blank text ends in front of `str`, where nothing may be read
    if last > str then do
      let c ← memory last
      if c = ' ' then skipBack memory str fuel (last - 1) else some last
    else some last

def trim (memory : Memory) (str : ℤ) : Option (Memory × ℤ) := do
  let str ← memory.scan (· ≠ ' ') maxInputSize str
  let length ← strlen memory str
  let last ← skipBack memory str maxInputSize (str + length - 1)
  let memory ← memory.store (last + 1) nul
  some (memory, str)

/-- What `execute_pipe_command` does before it creates a process. -/
def splitPipe (buffer : Buffer) (input pipePos : ℤ) (args1 args2 : Args) :
    Option (Buffer × Args × Args) := do
  let memory ← buffer.memory.store pipePos nul
  let (memory, cmd1) ← trim memory input
  let (memory, cmd2) ← trim memory (pipePos + 1)
  let (buffer, args1) ← parseArguments { buffer with memory } cmd1 args1
  let (buffer, args2) ← parseArguments buffer cmd2 args2
  some (buffer, args1, args2)

variable {m m' : Memory} {a b : ℤ} {s w rest : CString} {ws : List CString} {args : Args}

/-! ### Trimming -/

/-- Going back over `k` spaces that end behind the first `n` bytes. -/
theorem skipBack_spaces {n k fuel : ℕ} (hn : 0 < n) (hlast : ∀ c, m (a + n - 1) = some c → c ≠ ' ')
    (hget : (m (a + n - 1)).isSome) (hspaces : ∀ j < k, m (a + n + j) = some ' ')
    (hfuel : k < fuel) : skipBack m a fuel (a + n + k - 1) = some (a + n - 1) := by
  induction k generalizing fuel with
  | zero =>
    obtain ⟨fuel, rfl⟩ := Nat.exists_eq_succ_of_ne_zero (Nat.ne_zero_of_lt hfuel)
    rw [skipBack, Nat.cast_zero, add_zero]
    split
    · obtain ⟨c, hc⟩ := Option.isSome_iff_exists.mp hget
      simp [hc, hlast c hc]
    · rfl
  | succ k ih =>
    obtain ⟨fuel, rfl⟩ := Nat.exists_eq_succ_of_ne_zero (Nat.ne_zero_of_lt hfuel)
    have hend : a + (n : ℤ) + ((k + 1 : ℕ) : ℤ) - 1 = a + n + k := by omega
    have hrest := ih (fun j hj => hspaces j (Nat.lt_succ_of_lt hj)) (Nat.lt_of_succ_lt_succ hfuel)
    rw [hend, skipBack, if_pos (by omega), hspaces k (Nat.lt_succ_self k)]
    simpa using hrest

/-- The loop ends at the last character that is not a space, or before an empty text. -/
theorem skipBack_spec {l : ℕ} (h : TextAt m a (s ++ List.replicate l ' '))
    (hfront : ∀ c ∈ (s ++ List.replicate l ' ').head?, c ≠ ' ') (hback : ∀ c ∈ s.getLast?, c ≠ ' ')
    (hlength : s.length + l < maxInputSize) :
    skipBack m a maxInputSize (a + (s.length + l : ℕ) - 1) = some (a + s.length - 1) := by
  rcases List.eq_nil_or_concat' s with rfl | ⟨u, c, rfl⟩
  · -- the spaces in front are gone, so an empty text has none behind it
    have hl : l = 0 := by
      cases l with
      | zero => rfl
      | succ l => exact absurd rfl (hfront ' ' rfl)
    subst hl
    rw [show maxInputSize = 1023 + 1 from rfl, skipBack, if_neg]
    · rfl
    · rw [List.length_nil]
      omega
  · have hc : m (a + (u ++ [c]).length - 1) = some c := by
      have hget := h.bytes u.length (by simp)
      rw [List.append_assoc, List.append_assoc, List.getElem?_append_right le_rfl,
        Nat.sub_self] at hget
      have hat : a + ((u ++ [c]).length : ℤ) - 1 = a + u.length := by
        rw [List.length_append, List.length_singleton]
        omega
      rw [hat, hget]
      rfl
    have hspaces : ∀ j < l, m (a + (u ++ [c]).length + j) = some ' ' := by
      intro j hj
      have hget := h.bytes ((u ++ [c]).length + j) (by simp; omega)
      rw [List.append_assoc, List.getElem?_append_right (Nat.le_add_right _ _),
        Nat.add_sub_cancel_left, List.getElem?_append_left (by simpa using hj),
        List.getElem?_replicate_of_lt hj] at hget
      rw [← hget, Nat.cast_add, ← add_assoc]
    have hlast : ∀ d, m (a + (u ++ [c]).length - 1) = some d → d ≠ ' ' := by
      intro d hd
      obtain rfl : c = d := Option.some.inj (hc.symm.trans hd)
      exact hback c (by simp)
    have hgo := skipBack_spaces (by simp) hlast (by rw [hc]; rfl) hspaces
      (by omega : l < maxInputSize)
    rw [← hgo, Nat.cast_add, ← add_assoc]

/-- The text without the spaces around it is left as a string; only bytes of the text and
its terminator are touched. -/
theorem trim_spec (h : TextAt m a s) (hlength : s.length < maxInputSize) :
    ∃ m' b, trim m a = some (m', b) ∧ TextAt m' b (trimmed s) ∧ a ≤ b ∧
      b + (trimmed s).length ≤ a + s.length ∧ ∀ i, i < a ∨ a + s.length < i → m' i = m i := by
  obtain ⟨k, l, hs, hfront, hback⟩ := exists_trimmed s
  generalize trimmed s = t at *
  subst hs
  have hsize : k + (t.length + l) < maxInputSize := by simpa using hlength
  have hrest : TextAt m (a + k) (t ++ List.replicate l ' ') := by simpa using h.drop
  -- of a blank text the first loop leaves the terminator only
  have hskip : m.scan (· ≠ ' ') maxInputSize a = some (a + k) := by
    have hscan := @TextAt.scan m a _ _ (· ≠ ' ') maxInputSize h
      (fun c hc => by simpa using List.eq_of_mem_replicate hc) ?_ (by simp; omega)
    · simpa using hscan
    · intro c hc
      cases hcase : t ++ List.replicate l ' ' with
      | nil =>
        rw [hcase] at hc
        obtain rfl : nul = c := Option.some.inj hc
        decide
      | cons d u =>
        rw [hcase] at hc hfront
        simpa using hfront c hc
  have hlen : strlen m (a + k) = some ((t.length + l : ℕ) : ℤ) := by
    have hscan := @TextAt.scan _ _ (t ++ List.replicate l ' ') [] (· = nul) maxInputSize
      (by simpa using hrest) ?_ (by simp) (by simp; omega)
    · rw [strlen, hscan]
      simp
    · intro c hc
      simpa using fun he : c = nul => hrest.nul_notMem (he ▸ hc)
  have hlast := skipBack_spec hrest hfront hback (by omega)
  have hstore := hrest.store (j := t.length) (by simp) nul
  refine ⟨_, a + k, ?_, hrest.cut, by omega, by simp; omega, fun i hi => ?_⟩
  · simp only [trim, hskip, hlen, Option.bind_eq_bind, Option.bind_some, hlast]
    rw [sub_add_cancel, hstore]
    rfl
  · refine Function.update_of_ne ?_ _ _
    simp at hi
    omega

/-! ### Tokens -/

/-- Only spaces are overwritten, and only in a text of `n` bytes at `a`. -/
structure Splits (m : Memory) (a : ℤ) (n : ℕ) (m' : Memory) : Prop where
  spaces : ∀ i, m i ≠ some ' ' → m' i = m i
  inside : ∀ i, i < a ∨ a + n ≤ i → m' i = m i

namespace Splits

variable {n n' : ℕ} {m'' : Memory}

theorem refl (m : Memory) (a : ℤ) (n : ℕ) : Splits m a n m := ⟨fun _ _ => rfl, fun _ _ => rfl⟩

/-- First the text is split, then what is left of it. -/
theorem trans (h : Splits m a n m') (h' : Splits m' b n' m'') (hle : a ≤ b)
    (hend : b + n' = a + n) : Splits m a n m'' where
  spaces i hi := by
    have hsame := h.spaces i hi
    exact (h'.spaces i (hsame ▸ hi)).trans hsame
  inside i hi := (h'.inside i (by omega)).trans (h.inside i hi)

/-- A word has no spaces, so it stays as it is. -/
theorem textAt (h : Splits m a n m') (hw : TextAt m b w) (hspace : ' ' ∉ w) : TextAt m' b w := by
  refine ⟨hw.nul_notMem, fun j hj => ?_⟩
  have hbyte := hw.bytes j hj
  rw [← hbyte]
  apply h.spaces
  rw [hbyte]
  intro hget
  have hmem := List.mem_of_getElem? hget
  rw [List.mem_append, List.mem_singleton] at hmem
  rcases hmem with hmem | hmem
  · exact hspace hmem
  · exact absurd hmem (by decide)

end Splits

theorem space_notMem_of_mem_words (hw : w ∈ words s) : ' ' ∉ w := by
  induction hlength : s.length using Nat.strong_induction_on generalizing s with
  | h n ih =>
    rcases exists_word s with ⟨k, rfl⟩ | ⟨k, v, t, rfl, hv, hne, ht⟩
    · have hblank := words_spaces k []
      rw [List.append_nil] at hblank
      rw [hblank] at hw
      cases hw
    · rw [words_spaces, words_word_append hv hne ht] at hw
      rcases List.mem_cons.mp hw with rfl | hw
      · exact hv
      · refine ih t.length ?_ hw rfl
        have := List.length_pos_of_ne_nil hne
        simp only [List.length_append] at hlength
        omega

/-- What a token says about the words of the text it was searched in. -/
def IsToken (m : Memory) (token : Option ℤ) (todo : List CString) (rest : CString) : Prop :=
  match token with
  | none => todo = []
  | some p => ∃ w, TextAt m p w ∧ todo = w :: words rest

/-- `strtok` finds the first word and goes on behind it. -/
theorem strtok_spec {str position : Option ℤ} (h : TextAt m a s)
    (hlength : s.length < maxInputSize) (hstart : (str <|> position) = some a) :
    ∃ m' b rest token, strtok ⟨m, position⟩ str [' '] = some (⟨m', some b⟩, token) ∧
      Splits m a s.length m' ∧ TextAt m' b rest ∧ a ≤ b ∧ b + rest.length = a + s.length ∧
      IsToken m' token (words s) rest := by
  have hnul : ∀ c ∈ ([] ++ [nul] : List Char).head?, c = nul := by simp
  rcases exists_word s with ⟨k, rfl⟩ | ⟨k, w, t, rfl, hw, hne, ht⟩
  · -- no word is left: the position is the terminator
    have hskip : m.scan (· ∉ [' ']) maxInputSize a = some (a + k) := by
      have hscan := @TextAt.scan m a (List.replicate k ' ') [] (· ∉ [' ']) maxInputSize
        (by simpa using h) (fun c hc => by simpa using List.eq_of_mem_replicate hc)
        (fun c hc => by rw [hnul c hc]; decide) (by simpa using hlength)
      simpa using hscan
    have hend : m (a + k) = some nul := by simpa using h.get_length
    have hblank := words_spaces k []
    rw [List.append_nil] at hblank
    refine ⟨m, a + k, [], none, ?_, .refl m a _, ?_, by omega, by simp, hblank⟩
    · simp only [strtok, hstart, hskip, hend, Option.bind_eq_bind, Option.bind_some, if_true]
    · have hdrop := @TextAt.drop m a (List.replicate k ' ') [] (by simpa using h)
      simpa using hdrop
  · obtain ⟨c, u, rfl⟩ := List.exists_cons_of_ne_nil hne
    have hword : TextAt m (a + k) (c :: u ++ t) := by simpa using h.drop
    have hsize : k + ((c :: u).length + t.length) < maxInputSize := by
      rwa [List.length_append, List.length_replicate, List.length_append] at hlength
    have hskip : m.scan (· ∉ [' ']) maxInputSize a = some (a + k) := by
      have hscan := @TextAt.scan m a _ _ (· ∉ [' ']) maxInputSize h
        (fun d hd => by simpa using List.eq_of_mem_replicate hd) ?_ (by simp; omega)
      · simpa using hscan
      · intro d hd
        obtain rfl : c = d := Option.some.inj hd
        simpa using Ne.symm fun he : ' ' = c => hw (he ▸ List.mem_cons_self)
    have hfirst : m (a + k) ≠ some nul := by
      rw [hword.head]
      intro he
      obtain rfl : c = nul := Option.some.inj he
      exact hword.nul_notMem List.mem_cons_self
    have hstop : m.scan (fun c => c ∈ [' '] ∨ c = nul) maxInputSize (a + k) =
        some (a + k + (c :: u).length) := by
      apply hword.scan
      · intro d hd
        have hspace : d ≠ ' ' := fun he => hw (he ▸ hd)
        have hnul : d ≠ nul := fun he => hword.nul_notMem (he ▸ List.mem_append_left t hd)
        simp [hspace, hnul]
      · intro d hd
        cases t with
        | nil => simp [hnul d hd]
        | cons e t =>
          obtain rfl : e = d := Option.some.inj hd
          simp [ht e rfl]
      · omega
    have hwords : words (List.replicate k ' ' ++ (c :: u ++ t)) = (c :: u) :: words t := by
      rw [words_spaces, words_word_append hw hne ht]
    rw [hwords]
    cases t with
    | nil =>
      -- the last word: its terminator is that of the text
      rw [List.append_nil] at hword
      have hend : m (a + k + (c :: u).length) = some nul := hword.get_length
      refine ⟨m, a + k + (c :: u).length, [], some (a + k), ?_, .refl m a _, ?_, by omega,
        by simp; omega, c :: u, hword, rfl⟩
      · simp only [strtok, hstart, hskip, hfirst, hstop, hend, Option.bind_eq_bind,
          Option.bind_some, if_true, if_false]
      · exact @TextAt.drop m _ (c :: u) [] (by simpa using hword)
    | cons d t =>
      -- the space behind the word becomes its terminator
      obtain rfl : d = ' ' := ht d rfl
      have htail : TextAt m (a + k + (c :: u).length) (' ' :: t) := hword.drop
      have hspace : m (a + k + (c :: u).length) = some ' ' := htail.head
      have hstore := hword.store (j := (c :: u).length) (by simp) nul
      refine ⟨Function.update m (a + k + (c :: u).length) (some nul),
        a + k + (c :: u).length + 1, t, some (a + k), ?_, ⟨?_, ?_⟩, ?_, by omega, ?_,
        c :: u, hword.cut, ?_⟩
      · have hnot : ¬ some ' ' = some nul := by decide
        simp only [strtok, hstart, hskip, hfirst, hstop, hspace, hstore, hnot,
          Option.bind_eq_bind, Option.bind_some, if_false]
      · intro i hi
        refine Function.update_of_ne ?_ _ _
        rintro rfl
        exact hi hspace
      · intro i hi
        refine Function.update_of_ne ?_ _ _
        simp only [List.length_append, List.length_replicate, List.length_cons] at hi ⊢
        omega
      · have hrest : TextAt m (a + k + (c :: u).length + 1) t := @TextAt.drop m _ [' '] t htail
        exact hrest.update (.inl (by omega)) _
      · simp only [List.length_append, List.length_replicate, List.length_cons]
        omega
      · rw [words_space]

/-! ### Argument arrays -/

/-- The array starts with pointers to these strings. -/
def Stored (m : Memory) (args : Args) (ws : List CString) : Prop :=
  ∀ i, (h : i < ws.length) → ∃ p, args[i]? = some (some p) ∧ TextAt m p ws[i]

/-- The array holds these strings, and `NULL` behind the last of them. -/
structure ArgsAt (m : Memory) (args : Args) (ws : List CString) : Prop where
  strings : Stored m args ws
  null : args[ws.length]? = some none

theorem Stored.splits {n : ℕ} (h : Stored m args ws) (hspace : ∀ w ∈ ws, ' ' ∉ w)
    (hsplit : Splits m a n m') : Stored m' args ws := by
  intro i hi
  obtain ⟨p, hp, htext⟩ := h i hi
  exact ⟨p, hp, hsplit.textAt htext (hspace _ (List.getElem_mem hi))⟩

theorem Args.put_eq {i : ℕ} (hi : i < maxArgs) (p : Option ℤ) :
    ∃ args', args.put i p = some args' ∧ args'[i]? = some p ∧
      ∀ j, j ≠ i → args'[j]? = args[j]? := by
  refine ⟨args.set i p hi, by rw [Args.put, dif_pos hi], ?_, fun j hj => ?_⟩
  · simp
  · exact Vector.getElem?_set_ne hi hj.symm

theorem Stored.put {i : ℕ} {p : ℤ} {args' : Args} (h : Stored m args ws) (hi : ws.length = i)
    (hput : args'[i]? = some (some p)) (hsame : ∀ j, j ≠ i → args'[j]? = args[j]?)
    (hp : TextAt m p w) : Stored m args' (ws ++ [w]) := by
  intro j hj
  rw [List.length_append, List.length_singleton] at hj
  rcases Nat.lt_or_eq_of_le (Nat.le_of_lt_succ hj) with hlt | rfl
  · obtain ⟨q, hq, htext⟩ := h j hlt
    refine ⟨q, (hsame j (by omega)).trans hq, ?_⟩
    rwa [List.getElem_append_left hlt]
  · subst hi
    refine ⟨p, hput, ?_⟩
    rw [List.getElem_append_right le_rfl]
    simpa using hp

/-- The loop stores the words that are left, as long as there is room for `NULL`. -/
theorem storeTokens_spec {fuel : ℕ} {token : Option ℤ} {done todo : List CString}
    (hdone : done.length < maxArgs) (hfuel : maxArgs ≤ done.length + fuel)
    (hspace : ∀ w ∈ done ++ todo, ' ' ∉ w) (hstored : Stored m args done)
    (htext : TextAt m b rest) (hlength : rest.length < maxInputSize)
    (htoken : IsToken m token todo rest) :
    ∃ m' position args',
      storeTokens fuel ⟨m, some b⟩ args token done.length = some (⟨m', position⟩, args',
        (done ++ todo.take (maxArgs - 1 - done.length)).length) ∧
      Splits m b rest.length m' ∧
      Stored m' args' (done ++ todo.take (maxArgs - 1 - done.length)) := by
  induction fuel generalizing m b rest args token done todo with
  | zero => omega
  | succ fuel ih =>
    cases token with
    | none =>
      obtain rfl : todo = [] := htoken
      refine ⟨m, some b, args, ?_, .refl m b _, ?_⟩
      · rw [storeTokens, if_neg (fun h => h.1 rfl), List.take_nil, List.append_nil]
      · rwa [List.take_nil, List.append_nil]
    | some p =>
      obtain ⟨w, hw, rfl⟩ := htoken
      by_cases hroom : done.length < maxArgs - 1
      · obtain ⟨args₁, hput, hnew, hsame⟩ := @Args.put_eq args _ hdone (some p)
        obtain ⟨m₁, b₁, rest₁, token₁, hstrtok, hsplit, htext₁, hle, hend, htoken₁⟩ :=
          @strtok_spec m b rest none (some b) htext hlength rfl
        have hdone₁ : Stored m₁ args₁ (done ++ [w]) := by
          refine (hstored.put rfl hnew hsame hw).splits (fun v hv => hspace v ?_) hsplit
          rw [List.mem_append, List.mem_singleton] at hv
          rw [List.mem_append, List.mem_cons]
          tauto
        have hspace₁ : ∀ v ∈ done ++ [w] ++ words rest, ' ' ∉ v := by
          rwa [List.append_assoc, List.singleton_append]
        have hcount : (done ++ [w]).length = done.length + 1 := by
          rw [List.length_append, List.length_singleton]
        obtain ⟨m', position, args', hloop, hsplit', hstored'⟩ :=
          ih (by omega) (by omega) hspace₁ hdone₁ htext₁ (by omega) htoken₁
        have htake : done ++ (w :: words rest).take (maxArgs - 1 - done.length) =
            done ++ [w] ++ (words rest).take (maxArgs - 1 - (done ++ [w]).length) := by
          obtain ⟨k, hk⟩ := Nat.exists_eq_add_of_lt hroom
          have hfirst : maxArgs - 1 - done.length = k + 1 := by omega
          have hsecond : maxArgs - 1 - (done ++ [w]).length = k := by omega
          rw [hfirst, hsecond, List.take_succ_cons, List.append_assoc, List.singleton_append]
        rw [htake]
        refine ⟨m', position, args', ?_, hsplit.trans hsplit' hle hend, hstored'⟩
        rw [storeTokens, if_pos ⟨Option.some_ne_none p, hroom⟩, hput]
        simp only [hstrtok, Option.bind_eq_bind, Option.bind_some]
        rw [← hcount]
        exact hloop
      · -- the other words are dropped
        have hfull : maxArgs - 1 - done.length = 0 := by omega
        refine ⟨m, some b, args, ?_, .refl m b _, ?_⟩
        · rw [storeTokens, if_neg (fun h => hroom h.2), hfull, List.take_zero, List.append_nil]
        · rwa [hfull, List.take_zero, List.append_nil]

/-- The arguments are the words of the text, as many as fit. -/
theorem parseArguments_spec (h : TextAt m a s) (hlength : s.length < maxInputSize)
    (position : Option ℤ) (args : Args) :
    ∃ m' position' args', parseArguments ⟨m, position⟩ a args = some (⟨m', position'⟩, args') ∧
      Splits m a s.length m' ∧ ArgsAt m' args' ((words s).take (maxArgs - 1)) := by
  obtain ⟨m₁, b, rest, token, hstrtok, hsplit, htext, hle, hend, htoken⟩ :=
    @strtok_spec m a s (some a) position h hlength rfl
  have hnone : Stored m₁ args [] := fun i hi => absurd hi (Nat.not_lt_zero i)
  obtain ⟨m', position', args₁, hloop, hsplit', hstored⟩ :=
    @storeTokens_spec m₁ b rest args maxArgs token [] (words s) (by decide) (by simp)
      (fun w hw => space_notMem_of_mem_words hw) hnone htext (by omega) htoken
  rw [List.nil_append, List.length_nil, Nat.sub_zero] at hloop hstored
  have hcount : ((words s).take (maxArgs - 1)).length < maxArgs := by
    have := List.length_take_le (maxArgs - 1) (words s)
    have : maxArgs = 64 := rfl
    omega
  obtain ⟨args', hput, hnull, hsame⟩ := @Args.put_eq args₁ _ hcount none
  refine ⟨m', position', args', ?_, hsplit.trans hsplit' hle hend, fun i hi => ?_, hnull⟩
  · simp only [parseArguments, hstrtok, hloop, hput, Option.bind_eq_bind, Option.bind_some]
  · obtain ⟨p, hp, hw⟩ := hstored i hi
    exact ⟨p, (hsame i (Nat.ne_of_lt hi)).trans hp, hw⟩

/-- Both argument arrays, each from the text on its side of the `'|'`. -/
theorem splitPipe_spec {left right : CString} (h : TextAt m a (left ++ '|' :: right))
    (hlength : (left ++ '|' :: right).length < maxInputSize) (position : Option ℤ)
    (args1 args2 : Args) :
    ∃ m' position' args1' args2',
      splitPipe ⟨m, position⟩ a (a + left.length) args1 args2 =
        some (⟨m', position'⟩, args1', args2') ∧
      ArgsAt m' args1' ((words left).take (maxArgs - 1)) ∧
      ArgsAt m' args2' ((words right).take (maxArgs - 1)) := by
  rw [List.length_append, List.length_cons] at hlength
  -- the texts before and behind the `'|'`
  have hstore := h.store (j := left.length) (by simp) nul
  have hleft := h.cut
  have hright : TextAt (Function.update m (a + left.length) (some nul)) (a + left.length + 1)
      right := by
    have hdrop : TextAt m (a + left.length + 1) right := @TextAt.drop m _ ['|'] right h.drop
    exact hdrop.update (.inl (by omega)) _
  obtain ⟨m₁, cmd1, htrim1, htext1, hle1, hend1, hout1⟩ := trim_spec hleft (by omega)
  have hright₁ : TextAt m₁ (a + left.length + 1) right :=
    hright.congr fun j hj _ => hout1 j (.inr (by omega))
  obtain ⟨m₂, cmd2, htrim2, htext2, hle2, hend2, hout2⟩ := trim_spec hright₁ (by omega)
  have htext1₂ : TextAt m₂ cmd1 (trimmed left) :=
    htext1.congr fun j _ hj => hout2 j (.inl (by omega))
  obtain ⟨m₃, position₃, args1', hparse1, hsplit1, hargs1⟩ :=
    parseArguments_spec htext1₂ (by omega) position args1
  have htext2₃ : TextAt m₃ cmd2 (trimmed right) :=
    htext2.congr fun j hj _ => hsplit1.inside j (.inr (by omega))
  obtain ⟨m', position', args2', hparse2, hsplit2, hargs2⟩ :=
    parseArguments_spec htext2₃ (by omega) position₃ args2
  rw [words_trimmed] at hargs1 hargs2
  refine ⟨m', position', args1', args2', ?_, ⟨?_, hargs1.null⟩, hargs2⟩
  · simp only [splitPipe, hstore, htrim1, htrim2, hparse1, hparse2, Option.bind_eq_bind,
      Option.bind_some]
  · -- the second command has overwritten no byte of a word of the first one
    exact hargs1.strings.splits
      (fun w hw => space_notMem_of_mem_words (List.mem_of_mem_take hw)) hsplit2

/-! ### The main result -/

/-- The input buffer with a line in it. -/
def inputBuffer (line : CString) (behind : List Char) : Memory :=
  .ofBytes (line ++ nul :: behind)

theorem textAt_inputBuffer {line : CString} (h : nul ∉ line) (behind : List Char) :
    TextAt (inputBuffer line behind) 0 line :=
  @textAt_ofBytes line [] behind h

/-- A part of the memory that holds a text. -/
theorem textAt_restrict (h : TextAt m a s) : TextAt (m.restrict a (a + s.length)) a s :=
  h.congr fun _ hj hj' => if_pos ⟨hj, hj'⟩

/-- For every line that fits the buffer, whatever is behind it, whatever `strtok` has kept and
whatever the arrays held: without a `'|'` the arguments are the words of the line, as many
as fit, and then `NULL`; with a `'|'` the same is true of the texts before and behind the
first one. And `trim` leaves a text without the spaces around it and gets by with the bytes
of that text. -/
theorem arguments_spec {line : CString} (hnul : nul ∉ line) (hlength : line.length < maxInputSize)
    (behind : List Char) (position : Option ℤ) (args args1 args2 : Args) :
    ('|' ∉ line → ∃ m position' args',
      parseArguments ⟨inputBuffer line behind, position⟩ 0 args =
        some (⟨m, position'⟩, args') ∧
      ArgsAt m args' ((words line).take (maxArgs - 1))) ∧
    (∀ left right, line = left ++ '|' :: right → '|' ∉ left → ∃ m position' args1' args2',
      splitPipe ⟨inputBuffer line behind, position⟩ 0 left.length args1 args2 =
        some (⟨m, position'⟩, args1', args2') ∧
      ArgsAt m args1' ((words left).take (maxArgs - 1)) ∧
      ArgsAt m args2' ((words right).take (maxArgs - 1))) ∧
    ∀ before segment after, line = before ++ segment ++ after →
      ∀ m a, TextAt m a segment → ∃ m' b,
        trim (m.restrict a (a + segment.length)) a = some (m', b) ∧
        TextAt m' b (trimmed segment) ∧ a ≤ b ∧
        b + (trimmed segment).length ≤ a + segment.length := by
  have hline := textAt_inputBuffer hnul behind
  refine ⟨fun _ => ?_, ?_, ?_⟩
  · obtain ⟨m, position', args', hparse, -, hargs⟩ :=
      parseArguments_spec hline hlength position args
    exact ⟨m, position', args', hparse, hargs⟩
  · rintro left right rfl -
    have hsplit := splitPipe_spec hline hlength position args1 args2
    rwa [zero_add] at hsplit
  · rintro before segment after rfl m a htext
    rw [List.length_append, List.length_append] at hlength
    obtain ⟨m', b, htrim, htrimmed, hle, hend, -⟩ := trim_spec (textAt_restrict htext) (by omega)
    exact ⟨m', b, htrim, htrimmed, hle, hend⟩

/-- The left side of a pipeline with `k` arguments. -/
def manyArguments (k : ℕ) : CString := (List.replicate k ['a', ' ']).flatten

theorem words_manyArguments (k : ℕ) : words (manyArguments k) = List.replicate k ['a'] := by
  induction k with
  | zero => rfl
  | succ k ih =>
    have hfirst := words_word (w := ['a']) (by decide) (by decide) (manyArguments k)
    rwa [ih] at hfirst

/-- The parse of the left side stops early, and the right side is not affected. -/
theorem arguments_spec_crowded :
    ∃ m position args1 args2,
      splitPipe ⟨inputBuffer (manyArguments 70 ++ '|' :: " wc".toList) [], none⟩ 0 140
          (.replicate maxArgs none) (.replicate maxArgs none) =
        some (⟨m, position⟩, args1, args2) ∧
      ArgsAt m args1 (List.replicate 63 ['a']) ∧ ArgsAt m args2 ["wc".toList] := by
  have hlength : (manyArguments 70 ++ '|' :: " wc".toList).length < maxInputSize := by
    simp [manyArguments, maxInputSize]
  have hspec := arguments_spec (by decide) hlength [] none (.replicate maxArgs none)
    (.replicate maxArgs none) (.replicate maxArgs none)
  obtain ⟨m, position, args1, args2, hsplit, hargs1, hargs2⟩ :=
    hspec.2.1 (manyArguments 70) " wc".toList rfl (by decide)
  have hright : words " wc".toList = ["wc".toList] := by
    have hlast := words_last (w := "wc".toList) (by decide) (by decide)
    rwa [← words_space] at hlast
  have hfits : min (maxArgs - 1) 70 = 63 := by decide
  rw [words_manyArguments, List.take_replicate, hfits] at hargs1
  rw [hright] at hargs2
  exact ⟨m, position, args1, args2, hsplit, hargs1, hargs2⟩

end UnixLessons.Shell
