import UnixLessons.ArrayDirectory.Interface

/-!
# A session with the array directory

As long as no word has more than nine characters, the array is a list of at most ten records.
A full directory reads no words, so then none may be typed, and any number that is none of a
function ends the session.

## Main results

* `printAbonent_eq`, `searchAbonents_eq`: the rows that are printed
* `session_holds`: what comes of the text of a list of requests
-/

namespace UnixLessons.ArrayDirectory

open Text Transition

/-- What a user may want, the end of the session apart. -/
inductive Request where
  | add (record : Record)
  | delete (index : ℤ)
  | search (name : CString)
  | print

/-- A word that ends in its field. -/
def Short (w : CString) : Prop := IsWord w ∧ nul ∉ w ∧ w.length < maxLength

instance : DecidablePred Short := fun _ => inferInstanceAs (Decidable (_ ∧ _ ∧ _))

namespace Request

/-- The number in the menu. -/
def number : Request → ℤ
  | add _ => 1
  | delete _ => 2
  | search _ => 3
  | print => 4

/-- The words that are asked for, one on a line. -/
def words (full : Bool) : Request → List CString
  | add record => if full then [] else [record .name, record .secondName, record .tel]
  | delete index => [decimal index]
  | search name => [name]
  | print => []

def Fits : Request → Prop
  | add record => ∀ f, Short (record f)
  | delete index => -2 ^ 31 ≤ index ∧ index < 2 ^ 31
  | search name => Short name
  | print => True

theorem fits_add_iff {r : Record} :
    (add r).Fits ↔ Short (r .name) ∧ Short (r .secondName) ∧ Short (r .tel) := by
  refine ⟨fun h => ⟨h _, h _, h _⟩, fun h f => ?_⟩
  cases f
  · exact h.1
  · exact h.2.1
  · exact h.2.2

instance : DecidablePred Fits
  | add _ => decidable_of_iff _ fits_add_iff.symm
  | delete index => inferInstanceAs (Decidable (-2 ^ 31 ≤ index ∧ _))
  | search name => inferInstanceAs (Decidable (Short name))
  | print => isTrue trivial

end Request

/-- The directory as its user sees it, with the rows printed so far. -/
structure Book where
  records : List Record
  out : List Record

namespace Book

def empty : Book := ⟨[], []⟩

def full (b : Book) : Bool := decide (maxAbonent ≤ b.records.length)

def answer (b : Book) : Request → Book
  | .add record => if b.full then b else { b with records := b.records ++ [record] }
  | .delete index =>
    if 1 ≤ index ∧ index ≤ b.records.length then
      { b with records := b.records.eraseIdx (index - 1).toNat }
    else b
  | .search name => { b with out := b.out ++ b.records.filter (· .name = name) }
  | .print => { b with out := b.out ++ b.records }

/-- All that is typed for the requests, and for the end. -/
def script (ending : ℤ) : Book → List Request → Stdin
  | _, [] => textLines [decimal ending] []
  | b, r :: rs =>
    textLines (decimal r.number :: r.words b.full) (script ending (b.answer r) rs)

end Book

variable {m : Memory} {s : Directory} {records : List Record} {r : Record} {a : ℤ}
  {w p text name : CString} {stdin rest : Stdin} {fuel : ℕ} {outside : Outside}

/-! ### Rows -/

/-- The string at an address is printed. -/
theorem readString_eq (h : TextAt m a w) (hfuel : w.length < fuel) :
    readString m fuel a = some w := by
  induction w generalizing a fuel with
  | nil =>
    obtain ⟨fuel, rfl⟩ := Nat.exists_eq_succ_of_ne_zero (Nat.ne_zero_of_lt hfuel)
    rw [readString, h.head]
    rfl
  | cons c w ih =>
    obtain ⟨fuel, rfl⟩ := Nat.exists_eq_succ_of_ne_zero (Nat.ne_zero_of_lt hfuel)
    have hne : c ≠ nul := fun heq => h.nul_notMem (heq ▸ List.mem_cons_self)
    have htail : TextAt m (a + 1) w := @TextAt.drop m a [c] w h
    rw [readString, h.head]
    simp only [List.cons_append, List.head?_cons, Option.bind_eq_bind, Option.bind_some, if_neg hne]
    rw [ih htail (by simpa using hfuel), Option.map_some]

theorem row_eq (hsettled : Settled s) (h : Holds s records) {i : ℕ} (hr : records[i]? = some r) :
    row s.abonents i = some r := by
  have hread : ∀ f, readString s.abonents size (address i f) = some (r f) := by
    intro f
    have hlength := h.length_le hsettled hr f
    have hsize : size = 300 := rfl
    exact readString_eq (h.fields i r hr f) (by omega)
  rw [row, hread, hread, hread]
  refine congrArg some (funext fun f => ?_)
  cases f <;> rfl

/-- A loop that prints the chosen ones of the rows. -/
theorem foldlM_rows {chosen : Record → Bool} {f : List Record → ℕ → Option (List Record)}
    (hf : ∀ i r, records[i]? = some r → ∀ rows,
      f rows i = some (rows ++ if chosen r then [r] else [])) (rows : List Record) :
    (List.range records.length).foldlM f rows = some (rows ++ records.filter chosen) := by
  -- the last record belongs to the last round
  induction records using List.reverseRecOn with
  | nil => simp
  | append_singleton records r ih =>
    have hinit : ∀ i r', records[i]? = some r' → ∀ rows,
        f rows i = some (rows ++ if chosen r' then [r'] else []) := by
      intro i r' hr'
      have hi := (List.getElem?_eq_some_iff.mp hr').1
      exact hf i r' ((List.getElem?_append_left hi).trans hr')
    have hlast := hf records.length r (by simp)
    rw [List.length_append, List.length_singleton, List.range_succ, List.foldlM_append, ih hinit,
      Option.bind_eq_bind, Option.bind_some]
    simp only [List.foldlM_cons, List.foldlM_nil, hlast, List.filter_append, List.filter_cons,
      List.filter_nil, List.append_assoc]
    rfl

theorem toNat_count (h : Holds s records) : s.count.toNat = records.length := by
  rw [h.count, Int.toNat_natCast]

/-- All records are printed, as they are. -/
theorem printAbonent_eq (hsettled : Settled s) (h : Holds s records) :
    printAbonent s = some records := by
  have hrow : ∀ (i : ℕ) r, records[i]? = some r → ∀ rows : List Record,
      (row s.abonents i).map (rows ++ [·]) = some (rows ++ if true then [r] else []) := by
    intro i r hr rows
    rw [row_eq hsettled h hr]
    rfl
  rw [printAbonent, toNat_count h, @foldlM_rows records (fun _ => true) _ hrow [],
    List.filter_true, List.nil_append]

/-- The comparison reads no further than the string goes. The induction is on its rest, behind
the part `p` that was the same. -/
theorem strEQLoop_memory (h : TextAt m a (p ++ text)) (hlength : (p ++ text).length < 128) :
    strEQLoop (fun k => m (a + k)) (charAt name) fuel (Int8.ofNat p.length) =
      strEQLoop (charAt (p ++ text)) (charAt name) fuel (Int8.ofNat p.length) := by
  induction text generalizing p fuel with
  | nil =>
    cases fuel with
    | zero => rfl
    | succ fuel =>
      rw [List.append_nil] at h hlength
      have hindex : (Int8.ofNat p.length).toInt = p.length := Int8.toInt_ofNat_of_lt hlength
      have hend : charAt p p.length = some nul := by simpa using charAt_append p []
      simp only [List.append_nil, strEQLoop, hindex, h.get_length, hend, Option.bind_eq_bind,
        Option.bind_some]
      cases charAt name p.length with
      | none => rfl
      | some d =>
        -- both strings end here, or they differ
        by_cases hd : d = nul
        · simp [hd]
        · simp [hd, Ne.symm hd]
  | cons c text ih =>
    cases fuel with
    | zero => rfl
    | succ fuel =>
      have hp : p.length < 128 := by
        rw [List.length_append] at hlength
        omega
      have hindex : (Int8.ofNat p.length).toInt = p.length := Int8.toInt_ofNat_of_lt hp
      have hread : m (a + p.length) = some c := h.drop.head
      have hchar : charAt (p ++ c :: text) p.length = some c := charAt_append p (c :: text)
      have hsplit : p ++ c :: text = p ++ [c] ++ text := by simp
      have hnext := @ih (p ++ [c]) fuel (hsplit ▸ h) (hsplit ▸ hlength)
      rw [ofNat_length_concat, ← hsplit] at hnext
      simp only [strEQLoop, hindex, hread, hchar, Option.bind_eq_bind, Option.bind_some, hnext]

/-- A name in the array is compared with the one that is searched for. -/
theorem strEQ_memory (h : TextAt m a w) (hw : w.length < 128) (hname : nul ∉ name) :
    strEQ (some fun k => m (a + k)) (some (charAt name)) = some (if w = name then 1 else 0) := by
  have hloop := @strEQLoop_memory m a [] w name (2 ^ 7 + 1) h hw
  have hspec := strEQ_spec h.nul_notMem hname
  have hshare : ¬ Directory.ShareStart w name := fun hshare => absurd hshare.1 (by omega)
  rw [if_neg hshare] at hspec
  rw [← hspec]
  exact hloop

/-- The records with the name are printed, in their order. -/
theorem searchAbonents_eq (hsettled : Settled s) (h : Holds s records) (hname : nul ∉ name) :
    searchAbonents s name = some (records.filter (· .name = name)) := by
  have hround : ∀ (i : ℕ) r, records[i]? = some r → ∀ rows : List Record,
      ((strEQ (some fun k => s.abonents (address i .name + k)) (some (charAt name))).bind
        fun equal => if equal = 0 then some rows else (row s.abonents i).map (rows ++ [·])) =
      some (rows ++ if decide (r .name = name) then [r] else []) := by
    intro i r hr rows
    have hlength := h.length_le hsettled hr .name
    rw [strEQ_memory (h.fields i r hr .name) (by omega) hname, row_eq hsettled h hr]
    by_cases heq : r .name = name <;> simp [heq]
  have hloop := foldlM_rows hround []
  rw [searchAbonents, toNat_count h]
  exact hloop

/-! ### One request -/

theorem scanWord_next (hw : IsWord w) (h : skipSpace stdin = skipSpace (w ++ '\n' :: rest)) :
    scanWord stdin = (some w, '\n' :: rest) :=
  (scanWord_congr h).trans (hw.scanWord_line rest)

/-- The three words of a record on three lines. -/
theorem answers_typed (hfits : ∀ f, Short (r f))
    (h : skipSpace stdin = skipSpace (textLines [r .name, r .secondName, r .tel] rest)) :
    (∀ f, answers stdin f = some (r f)) ∧
      (scanWord (scanWord (scanWord stdin).2).2).2 = '\n' :: rest := by
  have hfirst : scanWord stdin = (some (r .name), '\n' :: textLines [r .secondName, r .tel] rest) :=
    scanWord_next (hfits .name).1 h
  have hsecond : scanWord ('\n' :: textLines [r .secondName, r .tel] rest) =
      (some (r .secondName), '\n' :: textLines [r .tel] rest) :=
    scanWord_next (hfits .secondName).1 (skipSpace_newline _)
  have hthird : scanWord ('\n' :: textLines [r .tel] rest) = (some (r .tel), '\n' :: rest) :=
    scanWord_next (hfits .tel).1 (skipSpace_newline _)
  refine ⟨fun f => ?_, ?_⟩
  · cases f <;> simp only [answers, hfirst, hsecond, hthird]
  · simp only [hfirst, hsecond, hthird]

/-- A directory that is a list of records. -/
structure Listed (s : Directory) (b : Book) : Prop where
  settled : Settled s
  holds : Holds s b.records

theorem listed_init : Listed .init .empty := ⟨settled_init, rfl, fun _ _ hr => by cases hr⟩

variable {b : Book} {q : Request} {qs : List Request} {t t' : Menu}

theorem Listed.full_iff (h : Listed s b) : b.full = true ↔ maxAbonent ≤ s.count := by
  rw [Book.full, decide_eq_true_eq, h.holds.count, Int.ofNat_le]

/-- A call that goes on with the list as the request wants it, prints the rows it wants, and has
read what was typed for it. -/
def Answers (b : Book) (q : Request) (rest : Stdin)
    (call : Option (Directory × Stdin × List Record)) : Prop :=
  ∃ s stdin rows, call = some (s, stdin, rows) ∧ Listed s (b.answer q) ∧
    (b.answer q).out = b.out ++ rows ∧ skipSpace stdin = skipSpace rest

theorem answers_add (h : Listed s b) (hfits : (Request.add r).Fits)
    (hstdin : skipSpace stdin = skipSpace (textLines ((Request.add r).words b.full) rest)) :
    Answers b (.add r) rest ((addAbonent s stdin).map fun (dir, stdin) => (dir, stdin, [])) := by
  by_cases hfull : b.full = true
  · have hadd : addAbonent s stdin = some (s, stdin) := by
      rw [addAbonent, if_pos (h.full_iff.mp hfull)]
    rw [hfull] at hstdin
    refine ⟨s, stdin, [], by rw [hadd]; rfl, ?_, ?_, hstdin⟩
    · rwa [Book.answer, if_pos hfull]
    · rw [Book.answer, if_pos hfull, List.append_nil]
  · rw [Bool.eq_false_iff.mpr hfull] at hstdin
    obtain ⟨hanswers, hrest⟩ := answers_typed hfits hstdin
    let call : Call := ⟨stdin, r, hanswers, fun f => (hfits f).2.2.le⟩
    have hshort : ∀ f, ∀ w ∈ answers stdin f, w.length < maxLength := by
      intro f w hw
      rw [hanswers f] at hw
      exact Option.some.inj hw ▸ (hfits f).2.2
    obtain ⟨s', left, hadd, hsettled⟩ := h.settled.addAbonent hshort
    have hroom : b.records.length < maxAbonent := by
      simpa [Book.full] using hfull
    have hwords : ∀ r' ∈ b.records, ∀ f, (r' f).length < maxLength := by
      intro r' hr' f
      obtain ⟨k, hk⟩ := List.mem_iff_getElem?.mp hr'
      exact Nat.lt_succ_of_le (h.holds.length_le h.settled hk f)
    obtain ⟨s'', hcall, hholds⟩ := @addCall_holds s b.records call h.settled.whole h.holds hroom
      hwords (fun f => (hfits f).2.1) (hfits .name).2.2 (hfits .secondName).2.2
      (.inl (hfits .tel).2.2)
    -- the call is the one that was made
    obtain rfl : s' = s'' := by
      rw [addCall, hadd] at hcall
      exact Option.some.inj hcall
    have hleft : left = '\n' :: rest := by
      obtain ⟨_, _, _, -, -, -, -, hleft⟩ :=
        (addAbonent_eq_some (lt_of_not_ge (mt h.full_iff.mpr hfull))).mp hadd
      exact hleft.trans hrest
    refine ⟨s', left, [], by rw [hadd]; rfl, ?_, ?_, hleft ▸ skipSpace_newline rest⟩
    · rw [Book.answer, if_neg hfull]
      exact ⟨hsettled, hholds⟩
    · rw [Book.answer, if_neg hfull, List.append_nil]

theorem answers_delete (h : Listed s b) {index : ℤ} (hfits : (Request.delete index).Fits)
    (old : ℤ) (hstdin : skipSpace stdin = skipSpace (textLines [decimal index] rest)) :
    Answers b (.delete index) rest ((deletAbonent s ((scanNumber stdin).1.getD old)).map
      (·, (scanNumber stdin).2, [])) := by
  have hscan : scanNumber stdin = (some index, '\n' :: rest) :=
    (scanNumber_congr hstdin).trans (scanNumber_line hfits.1 hfits.2 rest)
  have hcount := h.holds.count
  rw [hscan]
  by_cases hindex : 1 ≤ index ∧ index ≤ b.records.length
  · have hplace : index - 1 = ((index - 1).toNat : ℤ) := by omega
    have hdelete := deletAbonent_eq h.settled hindex.1 (by omega)
    have hmoved := h.holds.movedUp h.settled (k := (index - 1).toNat) (by omega)
    rw [← hplace] at hmoved
    refine ⟨_, '\n' :: rest, [], by rw [Option.getD_some, hdelete, Option.map_some], ?_, ?_,
      skipSpace_newline rest⟩
    · rw [Book.answer, if_pos hindex]
      exact ⟨h.settled.deletAbonent hdelete, hmoved⟩
    · rw [Book.answer, if_pos hindex, List.append_nil]
  · -- the index is that of no record
    have hdelete : deletAbonent s index = some s := by
      rw [deletAbonent, if_pos (by omega)]
    refine ⟨s, '\n' :: rest, [], by rw [Option.getD_some, hdelete, Option.map_some], ?_, ?_,
      skipSpace_newline rest⟩
    · rwa [Book.answer, if_neg hindex]
    · rw [Book.answer, if_neg hindex, List.append_nil]

theorem answers_search (h : Listed s b) (hfits : (Request.search name).Fits)
    (old : CharArray maxLength)
    (hstdin : skipSpace stdin = skipSpace (textLines [name] rest)) :
    Answers b (.search name) rest ((scanName old stdin).bind fun (searchName, stdin) =>
      (searchAbonents s searchName).map (s, stdin, ·)) := by
  obtain ⟨hword, hnul, hlength⟩ := hfits
  have hscan : scanName old stdin = some (name, '\n' :: rest) := by
    have hnext : scanWord stdin = (some name, '\n' :: rest) := scanWord_next hword hstdin
    rw [scanName, hnext]
    simp only [if_pos hlength, cstr_of_notMem hnul]
  rw [hscan, Option.bind_some]
  refine ⟨s, '\n' :: rest, b.records.filter (· .name = name), ?_, ⟨h.settled, h.holds⟩, rfl,
    skipSpace_newline rest⟩
  change (searchAbonents s name).map (s, '\n' :: rest, ·) = _
  rw [searchAbonents_eq h.settled h.holds hnul, Option.map_some]

/-- One request on the array and on the list. -/
theorem answers_perform (h : Listed s b) (outside : Outside) (hfits : q.Fits)
    (hstdin : skipSpace stdin = skipSpace (textLines (q.words b.full) rest)) :
    Answers b q rest (perform outside q.number s stdin) := by
  cases q with
  | add record => exact answers_add h hfits hstdin
  | delete index => exact answers_delete h hfits outside.index hstdin
  | search name => exact answers_search h hfits outside.searchName hstdin
  | print =>
    refine ⟨s, stdin, b.records, ?_, ⟨h.settled, h.holds⟩, rfl, hstdin⟩
    change (printAbonent s).map (s, stdin, ·) = _
    rw [printAbonent_eq h.settled h.holds, Option.map_some]

/-! ### The loop -/

/-- Before a round: the directory and the output are the user's, and the requests `qs` are
still to be read. -/
structure Ready (ending : ℤ) (t : Menu) (b : Book) (qs : List Request) : Prop where
  listed : Listed t.dir b
  out : t.out = b.out
  stdin : skipSpace t.stdin = skipSpace (b.script ending qs)

variable {ending : ℤ}

theorem Ready.round (h : Ready ending t b (q :: qs)) (outside : Outside) (hfits : q.Fits) :
    ∃ t', round outside t = some t' ∧ Ready ending t' (b.answer q) qs := by
  have hnumber : 1 ≤ q.number ∧ q.number ≤ 4 := by cases q <;> simp [Request.number]
  have hscan : scanNumber t.stdin =
      (some q.number, '\n' :: textLines (q.words b.full) ((b.answer q).script ending qs)) :=
    (scanNumber_congr h.stdin).trans (scanNumber_line (by omega) (by omega) _)
  have hchosen : chosen t = q.number := by
    rw [chosen, hscan]
    exact if_neg (by simp only [Option.getD_some]; omega)
  obtain ⟨s, stdin, rows, hperform, hlisted, hrows, hleft⟩ :=
    answers_perform h.listed outside hfits (skipSpace_newline _)
  rw [← hchosen] at hperform
  refine ⟨⟨s, chosen t, stdin, t.out ++ rows⟩, round_of_perform (by omega) ?_, hlisted, ?_, hleft⟩
  · rw [hscan]
    exact hperform
  · rw [hrows, ← h.out]

theorem Ready.rounds {outside : ℕ → Outside} {start : Menu} {k : ℕ} (hfits : ∀ q ∈ qs, q.Fits)
    (h : Ready ending t b qs)
    (hrounds : afterRounds (fun k => ArrayDirectory.round (outside k)) k start = some t) :
    ∃ t', afterRounds (fun k => ArrayDirectory.round (outside k)) (k + qs.length) start = some t' ∧
      Ready ending t' (qs.foldl Book.answer b) [] := by
  induction qs generalizing k t b with
  | nil => exact ⟨t, hrounds, h⟩
  | cons q qs ih =>
    obtain ⟨t', hround, hready⟩ := h.round (outside k) (hfits q List.mem_cons_self)
    have hlength : k + (q :: qs).length = k + 1 + qs.length := by
      rw [List.length_cons]
      omega
    rw [hlength]
    exact ih (fun q' hq' => hfits q' (List.mem_cons_of_mem q hq')) hready
      ((afterRounds_succ hrounds).trans hround)

/-- For any requests whose words are short, typed as the prompts ask for them, and any number at
the end that is none of a function: after one round for each request the array holds exactly
the records the user expects, the rows he expects have been printed, nothing was written
outside the array, and the session ends. -/
theorem session_holds (outside : ℕ → Outside) (requests : List Request)
    (hfits : ∀ q ∈ requests, q.Fits) (hending : ending < 1 ∨ 4 < ending)
    (hlower : -2 ^ 31 ≤ ending) (hupper : ending < 2 ^ 31) (number : ℤ) :
    ∃ t, afterRounds (fun k => round (outside k)) requests.length
        (start number (Book.empty.script ending requests)) = some t ∧
      Settled t.dir ∧ Holds t.dir (requests.foldl Book.answer .empty).records ∧
      t.out = (requests.foldl Book.answer .empty).out ∧
      chosen t = 5 ∧ round (outside requests.length) t = none := by
  have hstart : Ready ending (start number (Book.empty.script ending requests)) .empty requests :=
    ⟨listed_init, rfl, rfl⟩
  have hnone : afterRounds (fun k => round (outside k)) 0
      (start number (Book.empty.script ending requests)) = some _ := rfl
  obtain ⟨t, hrounds, hready⟩ := hstart.rounds hfits hnone
  rw [Nat.zero_add] at hrounds
  -- the number that is left ends the loop
  have hscan : scanNumber t.stdin = (some ending, ['\n']) :=
    (scanNumber_congr hready.stdin).trans (scanNumber_line hlower hupper [])
  have hchosen : chosen t = 5 := by
    rw [chosen, hscan, Option.getD_some]
    split <;> omega
  exact ⟨t, hrounds, hready.listed.settled, hready.listed.holds, hready.out, hchosen,
    round_of_chosen hchosen⟩

def record (name secondName tel : CString) : Record
  | .name => name
  | .secondName => secondName
  | .tel => tel

/-- The second of two records moves up, and is found. -/
def annBob : List Request :=
  [.add (record "Ann".toList "Lee".toList "123".toList),
    .add (record "Bob".toList "Li".toList "45".toList), .delete 1, .search "Bob".toList]

/-- What the variables of a round happen to hold. -/
def leftovers (k : ℕ) : Outside := ⟨k, ⟨"old".toList, by decide, by decide⟩, none⟩

theorem session_holds_annBob :
    ∃ t, afterRounds (fun k => round (leftovers k)) 4 (start 0
        "1\nAnn\nLee\n123\n1\nBob\nLi\n45\n2\n1\n3\nBob\n0\n".toList) = some t ∧
      Settled t.dir ∧ Holds t.dir [record "Bob".toList "Li".toList "45".toList] ∧
      t.out = [record "Bob".toList "Li".toList "45".toList] ∧
      chosen t = 5 ∧ round (leftovers 4) t = none :=
  @session_holds 0 leftovers annBob (by decide) (by decide) (by decide) (by decide) 0

end UnixLessons.ArrayDirectory
