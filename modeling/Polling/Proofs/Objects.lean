import Polling.Json.Reader
import Polling.Proofs.Binaries
import Polling.Proofs.NumberTexts

/-! # Reading what is written

What each reader makes of a text that was written for it, followed by anything else: numbers
(`natural_text`, `glance_real`), strings (`string_text`) and objects.  An object is read member by
member (`members_text`), so what becomes of it is decided by what its members do (`object_text`,
`object_fails`). -/

namespace Polling

namespace Json

namespace Reader

variable {α β : Type} {cs rest : List Char}

theorem run_bind {r : Reader α} {a : α} (h : StateT.run r cs = .ok (a, rest)) (f : α → Reader β) :
    StateT.run (r >>= f) cs = StateT.run (f a) rest := by
  rw [StateT.run_bind, h]
  rfl

theorem run_bind_error {r : Reader α} {e : Error} (h : StateT.run r cs = .error e)
    (f : α → Reader β) : StateT.run (r >>= f) cs = .error e := by
  rw [StateT.run_bind, h]
  rfl

theorem run_get : StateT.run (get : Reader (List Char)) cs = .ok (cs, cs) := rfl

theorem run_modify (f : List Char → List Char) :
    StateT.run (modify f : Reader Unit) cs = .ok ((), f cs) := rfl

theorem run_lexeme {f : List Char → Option (α × List Char)} {a : α} (h : f cs = some (a, rest)) :
    StateT.run (lexeme f) cs = .ok (a, rest) := by
  rw [lexeme, run_bind run_get, h]
  rfl

variable {c : Char}

theorem run_peek (hc : isBlank c = false) : StateT.run peek (c :: cs) = .ok (some c, c :: cs) := by
  rw [peek, run_bind (run_modify _), List.dropWhile_cons_of_neg (by simp [hc])]
  rfl

theorem run_take (hc : isBlank c = false) : StateT.run (take c) (c :: cs) = .ok ((), cs) := by
  rw [take, run_bind (run_peek hc), if_pos rfl]
  rfl

theorem run_word (w : List Char) : StateT.run (word w) (w ++ rest) = .ok ((), rest) := by
  have hprefix : w.isPrefixOf (w ++ rest) = true :=
    List.isPrefixOf_iff_prefix.2 (List.prefix_append w rest)
  rw [word, run_bind run_get, if_pos hprefix, run_modify,
    List.drop_left]

/-- A string whose characters stand for themselves. -/
def Plain (s : List Char) : Prop := ∀ c ∈ s, c ≠ '"' ∧ c ≠ '\\' ∧ 32 ≤ c.toNat

instance (s : List Char) : Decidable (Plain s) :=
  inferInstanceAs (Decidable (∀ c ∈ s, c ≠ '"' ∧ c ≠ '\\' ∧ 32 ≤ c.toNat))

theorem string?_plain {s : List Char} (hs : Plain s) :
    string? true (s ++ '"' :: rest) = some (s, rest) := by
  induction s with
  | nil => simp [string?]
  | cons c s ih =>
    obtain ⟨hquote, hslash, hc⟩ := hs c List.mem_cons_self
    have ih := ih fun d hd => hs d (List.mem_cons_of_mem c hd)
    rw [List.cons_append, string?]
    · rw [if_neg (by omega), ih]
      rfl
    all_goals simp_all

theorem string_text {s : List Char} (hs : Plain s) :
    StateT.run (string true) ('"' :: (s ++ '"' :: rest)) = .ok (String.ofList s, rest) := by
  rw [string, run_bind (run_take rfl), run_bind (run_lexeme (string?_plain hs))]
  rfl

theorem text_head {l : Literal} (hl : l.Proper) :
    ∃ c cs, l.text = c :: cs ∧ (c = '-' ∨ c.isDigit = true) := by
  rcases l with ⟨negative, whole, fraction, exponent⟩
  cases negative with
  | true => exact ⟨'-', _, rfl, .inl rfl⟩
  | false =>
    cases whole with
    | nil => exact absurd rfl hl.whole.1
    | cons c cs => exact ⟨c, _, rfl, .inr (hl.whole.2 c List.mem_cons_self)⟩

theorem run_glance_number {kept : Bool} (hc : c = '-' ∨ c.isDigit = true) :
    StateT.run (glance kept) (c :: cs) = StateT.run (number kept) (c :: cs) := by
  have hne : ∀ d : Char, d ≠ '-' → d.isDigit = false → c ≠ d := by
    rintro d hd hdigit rfl
    exact hc.elim hd fun h => by simp [hdigit] at h
  have hblank : isBlank c = false := by
    simp [isBlank, hne ' ' (by decide) rfl, hne '\t' (by decide) rfl, hne '\n' (by decide) rfl,
      hne '\r' (by decide) rfl]
  rw [glance, run_bind (run_peek hblank)]
  -- None of the characters that other values begin with is a digit or a sign.
  split
  case h_7 d _ _ _ _ _ _ h => cases h; rw [if_pos hc]
  case h_8 h => cases h
  all_goals exact absurd (Option.some.inj ‹_›) (hne _ (by decide) rfl)

/-- A number that is read in full. -/
theorem glance_literal {l : Literal} (hl : l.Proper) {v : Value} (hv : l.value? = some v)
    (hrest : EndsNumber rest) : StateT.run (glance true) (l.text ++ rest) = .ok (v, rest) := by
  obtain ⟨c, cs, htext, hc⟩ := text_head hl
  have hread := literal?_text hl hrest
  rw [htext, List.cons_append] at *
  rw [run_glance_number hc, number, run_bind (run_lexeme hread), if_pos rfl, hv]
  rfl

/-- A finite binary number. -/
theorem glance_real {x : Float} (hx : x.isFinite = true) (hrest : EndsNumber rest) :
    StateT.run (glance true) (real x ++ rest) = .ok (.real x, rest) := by
  obtain ⟨negative, d, hnumeral, hzero, hread⟩ := Numeral.ofFloat_finite layout.tie hx
  have htext : real x = (Literal.ofDecimal negative d).text := by
    rw [real, if_pos hx, Layout.float, hnumeral, Literal.text_ofDecimal]
    rfl
  have hfloat : (Numeral.finite (Literal.ofDecimal negative d).negative
      (Literal.ofDecimal negative d).decimal).toFloat = x := by
    rw [← hread, Numeral.toFloat, Numeral.toFloat, Literal.toFloat_ofDecimal,
      Literal.negative_ofDecimal]
  rw [htext]
  refine glance_literal (Literal.proper_ofDecimal negative hzero) ?_ hrest
  rw [Literal.value?_ofDecimal, Literal.real?, hfloat]
  exact if_pos hx

/-- There is no text for any other binary number. -/
theorem glance_not_real {x : Float} (hx : x.isFinite = false) :
    StateT.run (glance true) (real x ++ rest) = .ok (.null, rest) := by
  rw [real, if_neg (by simp [hx]), glance, List.cons_append, run_bind (run_peek rfl)]
  exact run_bind (run_word ['n', 'u', 'l', 'l']) _

theorem glance_natural {n : Nat} (hn : n < 2 ^ 64) (hrest : EndsNumber rest) :
    StateT.run (glance true) (Json.natural n ++ rest) = .ok (.integer n, rest) := by
  have htext : Json.natural n = Literal.text ⟨false, Digits.ofNat n, none, none⟩ := by
    simp [Json.natural, Literal.text, Literal.fractionText, Literal.exponentText]
  have hproper : Literal.Proper ⟨false, Digits.ofNat n, none, none⟩ :=
    ⟨isRun_ofNat n, fun h => by rw [Digits.eq_zero_of_head h, Digits.ofNat_zero], by simp⟩
  rw [htext]
  refine glance_literal hproper ?_ hrest
  simp only [Literal.value?, Digits.toNat_ofNat, Bool.false_eq_true, if_false, Nat.pow_eq]
  rw [if_neg (by omega)]

theorem natural_text {n : Nat} (hn : n < 2 ^ 64) (hrest : EndsNumber rest) :
    StateT.run natural (Json.natural n ++ rest) = .ok (n, rest) := by
  rw [natural, run_bind (glance_natural hn hrest), Value.asNatural, if_pos (by omega)]
  rfl

theorem glance_string {s : List Char} (hs : Plain s) :
    StateT.run (glance true) ('"' :: (s ++ '"' :: rest))
      = .ok (.string (String.ofList s), rest) := by
  rw [glance, run_bind (run_peek rfl)]
  exact run_bind (string_text hs) _

theorem glance_map : StateT.run (glance true) ('\x7b' :: rest) = .ok (.map, '\x7b' :: rest) := by
  rw [glance, run_bind (run_peek rfl)]
  rfl

end Reader

/-- The text of members up to the end of their object, each but the first after a separator. -/
def membersText : (first : Bool) → List (String × List Char) → List Char
  | _, [] => ['\x7d']
  | first, (key, text) :: ms =>
    (if first then [] else [',']) ++ ('"' :: key.toList ++ '"' :: ':' :: text)
      ++ membersText false ms

/-- The text of an object. -/
def objectText (ms : List (String × List Char)) : List Char := '\x7b' :: membersText true ms

/-- What follows a member: a separator or the end of the object. -/
def EndsMember (rest : List Char) : Prop := rest.head? = some ',' ∨ rest.head? = some '\x7d'

theorem EndsMember.endsNumber {rest : List Char} (h : EndsMember rest) : EndsNumber rest := by
  intro c hc
  rw [EndsMember, hc] at h
  rcases h with h | h <;> cases h <;> decide

theorem endsMember_membersText (ms : List (String × List Char)) (rest : List Char) :
    EndsMember (membersText false ms ++ rest) := by
  cases ms with
  | nil => exact .inr rfl
  | cons m ms => exact .inl rfl

namespace Reader

variable {σ : Type} {member : String → σ → Reader σ}

/-- A key of plain characters, whose member takes `s` to `t` whatever comes after it. -/
structure TakesMember (member : String → σ → Reader σ) (key : String) (text : List Char)
    (s t : σ) : Prop where
  plain : Plain key.toList
  reads : ∀ rest, EndsMember rest → StateT.run (member key s) (':' :: text ++ rest) = .ok (t, rest)

/-- Some members take `s` to `t`, one after the other. -/
inductive TakesMembers (member : String → σ → Reader σ) : List (String × List Char) → σ → σ → Prop
  | nil (s : σ) : TakesMembers member [] s s
  | cons {key : String} {text : List Char} {ms : List (String × List Char)} {s s' t : σ} :
    TakesMember member key text s s' → TakesMembers member ms s' t →
      TakesMembers member ((key, text) :: ms) s t

variable {s s' t : σ} {rest : List Char}

/-- One more member after some members. -/
theorem TakesMembers.concat {ms : List (String × List Char)} (h : TakesMembers member ms s s')
    {key : String} {text : List Char} (hm : TakesMember member key text s' t) :
    TakesMembers member (ms ++ [(key, text)]) s t := by
  induction h with
  | nil s => exact .cons hm (.nil t)
  | cons hm' _ ih => exact .cons hm' (ih hm)

theorem hasMember_end (first : Bool) :
    StateT.run (hasMember first) ('\x7d' :: rest) = .ok (false, '\x7d' :: rest) := by
  rw [hasMember, run_bind (run_peek rfl)]
  rfl

theorem hasMember_more (first : Bool) :
    StateT.run (hasMember first) ((if first then [] else [',']) ++ '"' :: rest)
      = .ok (true, '"' :: rest) := by
  cases first with
  | true =>
    rw [if_pos rfl, List.nil_append, hasMember, run_bind (run_peek rfl)]
    rfl
  | false =>
    rw [if_neg (by decide), List.cons_append, List.nil_append, hasMember, run_bind (run_peek rfl)]
    show StateT.run (take ',' >>= _) _ = _
    rw [run_bind (run_take rfl), run_bind (run_peek rfl)]
    rfl

/-- One member of an object, after which the members that follow are to be read. -/
theorem members_cons {key : String} {text : List Char} {ms : List (String × List Char)}
    (hkey : Plain key.toList) (fuel : Nat) (first : Bool) (s : σ) :
    StateT.run (members true member (fuel + 1) first s)
        (membersText first ((key, text) :: ms) ++ rest)
      = StateT.run (member key s >>= members true member fuel false)
        (':' :: text ++ (membersText false ms ++ rest)) := by
  have htext : membersText first ((key, text) :: ms) ++ rest
      = (if first then [] else [',']) ++ '"' :: (key.toList ++ '"'
        :: (':' :: text ++ (membersText false ms ++ rest))) := by
    simp [membersText]
  rw [htext, members, run_bind (hasMember_more first), if_pos rfl, run_bind (string_text hkey),
    String.ofList_toList]

/-- Members that take `s` to `t` leave the others to be read. -/
theorem members_text {ms : List (String × List Char)} (h : TakesMembers member ms s t)
    (ms' : List (String × List Char)) (fuel : Nat) (first : Bool) :
    StateT.run (members true member (ms.length + fuel) first s)
        (membersText first (ms ++ ms') ++ rest)
      = StateT.run (members true member fuel (first && ms.isEmpty) t)
        (membersText (first && ms.isEmpty) ms' ++ rest) := by
  induction h generalizing first with
  | nil s => simp
  | @cons key text ms s s' t hm _ ih =>
    have hfuel : ((key, text) :: ms).length + fuel = ms.length + fuel + 1 := by
      rw [List.length_cons]
      omega
    rw [hfuel, List.cons_append, members_cons hm.plain,
      run_bind (hm.reads _ (endsMember_membersText _ _)), ih]
    simp

theorem length_membersText (first : Bool) (ms : List (String × List Char)) :
    ms.length < (membersText first ms).length := by
  induction ms generalizing first with
  | nil => simp [membersText]
  | cons m ms ih =>
    have := ih false
    simp only [membersText, List.length_append, List.length_cons]
    omega

/-- The first members of an object leave it to the others. -/
theorem object_members {ms : List (String × List Char)} (h : TakesMembers member ms s t)
    (ms' : List (String × List Char)) (rest : List Char) :
    ∃ fuel first, StateT.run (object true member s) (objectText (ms ++ ms') ++ rest)
      = StateT.run (do
          let t ← members true member (fuel + 1) first t
          take '\x7d'
          return t) (membersText first ms' ++ rest) := by
  have hlen := length_membersText true (ms ++ ms')
  -- The text is longer than there are members, so it lasts as fuel.
  obtain ⟨fuel, hfuel⟩ : ∃ fuel, (membersText true (ms ++ ms') ++ rest).length + 1
      = ms.length + (fuel + 1) := by
    refine ⟨(membersText true (ms ++ ms') ++ rest).length - ms.length, ?_⟩
    rw [List.length_append] at *
    omega
  refine ⟨fuel, true && ms.isEmpty, ?_⟩
  rw [object, objectText, List.cons_append, run_bind (run_take rfl),
    run_bind run_get, hfuel, StateT.run_bind, members_text h, StateT.run_bind]

/-- An object whose members take `s` to `t` is read in full. -/
theorem object_text {ms : List (String × List Char)} (h : TakesMembers member ms s t)
    (rest : List Char) :
    StateT.run (object true member s) (objectText ms ++ rest) = .ok (t, rest) := by
  obtain ⟨fuel, first, hmembers⟩ := object_members h [] rest
  rw [List.append_nil] at hmembers
  have hend : StateT.run (members true member (fuel + 1) first t) ('\x7d' :: rest)
      = .ok (t, '\x7d' :: rest) := by
    rw [members]
    exact run_bind (hasMember_end _) _
  rw [hmembers, membersText, List.cons_append, List.nil_append, run_bind hend,
    run_bind (run_take rfl)]
  rfl

/-- An object is not read past a member that cannot be read. -/
theorem object_fails {ms : List (String × List Char)} {key : String} {text : List Char}
    (h : TakesMembers member ms s t) (ms' : List (String × List Char)) (hkey : Plain key.toList)
    {e : Error}
    (he : ∀ rest, EndsMember rest → StateT.run (member key t) (':' :: text ++ rest) = .error e)
    (rest : List Char) :
    StateT.run (object true member s) (objectText (ms ++ (key, text) :: ms') ++ rest)
      = .error e := by
  obtain ⟨fuel, first, hmembers⟩ := object_members h ((key, text) :: ms') rest
  rw [hmembers]
  refine run_bind_error ?_ _
  rw [members_cons hkey]
  exact run_bind_error (he _ (endsMember_membersText _ _)) _

end Reader

end Json

end Polling
