import Neve.StrTextProofs

/-! # The parts of a URL

    By the generic syntax: a fragment starts at the first `#`, a query at the first `?`
    before it, and what is left is a scheme, an authority and the path.  A text that is
    put at the end of a URL goes to its last part: it extends the path of a URL that has
    neither query nor fragment (`path_append`), and otherwise leaves the path as it was
    (`path_append_of_not_bare`). -/

namespace UrlText

open StrText

/-! ## Reading the parts -/

/-- What stands before the first `c`, and what after it. -/
def cut (c : Char) (s : List Char) : List Char × Option (List Char) :=
  match splitOnceList c s with
  | some (before, after) => (before, some after)
  | none => (s, none)

def isNameChar (c : Char) : Bool := c ≠ ':' ∧ c ≠ '/'

/-- What follows the scheme and its colon. -/
def afterScheme (s : List Char) : List Char :=
  if s.takeWhile isNameChar ≠ [] ∧ (s.dropWhile isNameChar).head? = some ':' then
    (s.dropWhile isNameChar).tail
  else s

/-- What follows two slashes and the authority. -/
def afterAuthority (s : List Char) : List Char :=
  if s.take 2 = ['/', '/'] then (s.drop 2).dropWhile fun c => c ≠ '/' else s

/-- The path of a URL without query and fragment. -/
def barePath (s : List Char) : List Char := afterAuthority (afterScheme s)

def fragment (s : List Char) : Option (List Char) := (cut '#' s).2

def query (s : List Char) : Option (List Char) := (cut '?' (cut '#' s).1).2

def path (s : List Char) : List Char := barePath (cut '?' (cut '#' s).1).1

/-- The parameters of a query. -/
def params (q : Option (List Char)) : List (List Char) :=
  ((q.getD []).splitOn '&').filter fun p => p ≠ []

/-- A URL without query and fragment. -/
def Bare (s : List Char) : Prop := '?' ∉ s ∧ '#' ∉ s

instance (s : List Char) : Decidable (Bare s) :=
  inferInstanceAs (Decidable ('?' ∉ s ∧ '#' ∉ s))

/-! ## The three shapes -/

theorem cut_of_not_mem {c : Char} {s : List Char} (h : c ∉ s) : cut c s = (s, none) := by
  rw [cut, splitOnceList_eq_none.mpr h]

theorem cut_append {c : Char} {before after : List Char} (h : c ∉ before) :
    cut c (before ++ c :: after) = (before, some after) := by
  rw [cut, splitOnceList_append h]

/-- A first part without the separator is cut nowhere. -/
theorem cut_append_left {c : Char} {start : List Char} (h : c ∉ start) (s : List Char) :
    cut c (start ++ s) = (start ++ (cut c s).1, (cut c s).2) := by
  by_cases hs : c ∈ s
  · obtain ⟨before, after, rfl, hb⟩ := List.eq_append_cons_of_mem hs
    have hstart : c ∉ start ++ before := by
      rw [List.mem_append, not_or]
      exact ⟨h, hb⟩
    rw [← List.append_assoc, cut_append hstart, cut_append hb]
  · have hboth : c ∉ start ++ s := by
      rw [List.mem_append, not_or]
      exact ⟨h, hs⟩
    rw [cut_of_not_mem hboth, cut_of_not_mem hs]

theorem not_mem_cut (c : Char) (s : List Char) : c ∉ (cut c s).1 := by
  by_cases hs : c ∈ s
  · obtain ⟨before, after, rfl, hb⟩ := List.eq_append_cons_of_mem hs
    rw [cut_append hb]
    exact hb
  · rw [cut_of_not_mem hs]
    exact hs

/-- Every URL text: without query and fragment, with a query alone, with a fragment. -/
inductive Shape : List Char → Prop where
  | bare {s : List Char} (hs : Bare s) : Shape s
  | queried {s q : List Char} (hs : Bare s) (hq : '#' ∉ q) : Shape (s ++ '?' :: q)
  | fragmented {s f : List Char} (hs : '#' ∉ s) : Shape (s ++ '#' :: f)

theorem shape (s : List Char) : Shape s := by
  by_cases hf : '#' ∈ s
  · obtain ⟨before, after, rfl, hb⟩ := List.eq_append_cons_of_mem hf
    exact .fragmented hb
  · by_cases hq : '?' ∈ s
    · obtain ⟨before, after, rfl, hb⟩ := List.eq_append_cons_of_mem hq
      rw [List.mem_append, not_or, List.mem_cons, not_or] at hf
      exact .queried ⟨hb, hf.1⟩ hf.2.2
    · exact .bare ⟨hq, hf⟩

section Bare

variable {s : List Char}

theorem path_bare (h : Bare s) : path s = barePath s := by
  rw [path, cut_of_not_mem h.2, cut_of_not_mem h.1]

theorem query_bare (h : Bare s) : query s = none := by
  rw [query, cut_of_not_mem h.2, cut_of_not_mem h.1]

theorem fragment_bare (h : Bare s) : fragment s = none := by
  rw [fragment, cut_of_not_mem h.2]

/-- A query that follows: up to the `#` in it. -/
theorem cut_queried (h : Bare s) (q : List Char) :
    cut '#' (s ++ '?' :: q) = (s ++ '?' :: (cut '#' q).1, (cut '#' q).2) := by
  have hstart : '#' ∉ s ++ ['?'] := by
    rw [List.mem_append, not_or]
    exact ⟨h.2, by decide⟩
  have happend := cut_append_left hstart q
  rw [List.append_assoc, List.append_assoc] at happend
  exact happend

theorem path_queried (h : Bare s) (q : List Char) : path (s ++ '?' :: q) = barePath s := by
  rw [path, cut_queried h, cut_append h.1]

theorem query_queried (h : Bare s) (q : List Char) :
    query (s ++ '?' :: q) = some (cut '#' q).1 := by
  rw [query, cut_queried h, cut_append h.1]

theorem fragment_queried (h : Bare s) (q : List Char) :
    fragment (s ++ '?' :: q) = fragment q := by
  rw [fragment, cut_queried h, fragment]

end Bare

section Fragmented

variable {s : List Char}

theorem path_fragmented (h : '#' ∉ s) (f : List Char) : path (s ++ '#' :: f) = path s := by
  rw [path, path, cut_append h, cut_of_not_mem h]

theorem query_fragmented (h : '#' ∉ s) (f : List Char) : query (s ++ '#' :: f) = query s := by
  rw [query, query, cut_append h, cut_of_not_mem h]

theorem fragment_fragmented (h : '#' ∉ s) (f : List Char) :
    fragment (s ++ '#' :: f) = some f := by
  rw [fragment, cut_append h]

end Fragmented

/-! ## A path at the end -/

theorem Bare.append {s p : List Char} (hs : Bare s) (hp : Bare p) : Bare (s ++ p) := by
  rw [Bare, List.mem_append, List.mem_append, not_or, not_or]
  exact ⟨⟨hs.1, hp.1⟩, hs.2, hp.2⟩

theorem afterScheme_append (s p : List Char) :
    afterScheme (s ++ '/' :: p) = afterScheme s ++ '/' :: p := by
  have hslash : ('/' :: p).dropWhile isNameChar = '/' :: p := rfl
  have htake : ('/' :: p).takeWhile isNameChar = [] := rfl
  rw [afterScheme, afterScheme]
  cases hdrop : s.dropWhile isNameChar with
  | nil =>
      rw [List.dropWhile_append, hdrop, List.isEmpty_nil, if_pos rfl, hslash, if_neg, if_neg]
      · rintro ⟨-, hhead⟩
        cases hhead
      · rintro ⟨-, hhead⟩
        cases hhead
  | cons d rest =>
      have hlt : (s.takeWhile isNameChar).length ≠ s.length := by
        intro heq
        have hall : (s.takeWhile isNameChar ++ s.dropWhile isNameChar).length = s.length :=
          congrArg List.length List.takeWhile_append_dropWhile
        rw [List.length_append, heq, hdrop, List.length_cons] at hall
        omega
      rw [List.dropWhile_append, List.takeWhile_append, hdrop, List.isEmpty_cons,
        if_neg Bool.false_ne_true, if_neg hlt, List.cons_append, List.head?_cons, List.head?_cons,
        List.tail_cons, List.tail_cons]
      by_cases hscheme : s.takeWhile isNameChar ≠ [] ∧ some d = some ':'
      · rw [if_pos hscheme, if_pos hscheme]
      · rw [if_neg hscheme, if_neg hscheme]

theorem afterAuthority_append {s p : List Char} {c : Char} (hend : s.getLast? ≠ some '/')
    (hc : c ≠ '/') : afterAuthority (s ++ '/' :: c :: p) = afterAuthority s ++ '/' :: c :: p := by
  have hslash : ('/' :: c :: p).dropWhile (fun c => decide (c ≠ '/')) = '/' :: c :: p := rfl
  rw [afterAuthority, afterAuthority]
  cases s with
  | nil =>
      have hleft : ¬ ([] ++ '/' :: c :: p).take 2 = ['/', '/'] := by
        rintro ⟨⟩
        exact hc rfl
      have hright : ¬ ([] : List Char).take 2 = ['/', '/'] := by decide
      rw [if_neg hleft, if_neg hright]
  | cons a s =>
      cases s with
      | nil =>
          have hleft : ¬ ([a] ++ '/' :: c :: p).take 2 = ['/', '/'] := by
            rintro ⟨⟩
            exact hend rfl
          have hright : ¬ [a].take 2 = ['/', '/'] := by
            rintro ⟨⟩
          rw [if_neg hleft, if_neg hright]
      | cons b s =>
          have htake : (a :: b :: s ++ '/' :: c :: p).take 2 = (a :: b :: s).take 2 := rfl
          have hdrop : (a :: b :: s ++ '/' :: c :: p).drop 2 = s ++ '/' :: c :: p := rfl
          have hrest : (a :: b :: s).drop 2 = s := rfl
          rw [htake, hdrop, hrest]
          by_cases htwo : (a :: b :: s).take 2 = ['/', '/']
          · rw [if_pos htwo, if_pos htwo, List.dropWhile_append, hslash]
            cases s.dropWhile (fun c => decide (c ≠ '/')) with
            | nil => rfl
            | cons d rest => rfl
          · rw [if_neg htwo, if_neg htwo]

theorem afterScheme_suffix (s : List Char) : afterScheme s <:+ s := by
  rw [afterScheme]
  by_cases hscheme : s.takeWhile isNameChar ≠ [] ∧ (s.dropWhile isNameChar).head? = some ':'
  · rw [if_pos hscheme]
    exact (List.tail_suffix _).trans (List.dropWhile_suffix _)
  · rw [if_neg hscheme]

/-- A path that is put at the end extends the path of a bare URL. -/
theorem path_append {s p : List Char} {c : Char} (hs : Bare s) (hp : Bare ('/' :: c :: p))
    (hend : s.getLast? ≠ some '/') (hc : c ≠ '/') :
    path (s ++ '/' :: c :: p) = path s ++ '/' :: c :: p := by
  have hrest : (afterScheme s).getLast? ≠ some '/' := by
    intro hlast
    obtain ⟨start, hstart⟩ := afterScheme_suffix s
    refine hend ?_
    rw [← hstart, List.getLast?_append, hlast, Option.some_or]
  rw [path_bare (hs.append hp), path_bare hs, barePath, barePath, afterScheme_append,
    afterAuthority_append hrest hc]

/-- Text at the end of another URL leaves its path as it was. -/
theorem path_append_of_not_bare {s : List Char} (hs : ¬ Bare s) (more : List Char) :
    path (s ++ more) = path s := by
  cases shape s with
  | bare h => exact absurd h hs
  | @queried a q ha hq =>
      rw [List.append_assoc, List.cons_append, path_queried ha, path_queried ha]
  | @fragmented a f ha =>
      rw [List.append_assoc, List.cons_append, path_fragmented ha, path_fragmented ha]

/-! ## A start without the marks -/

section Start

variable {start : List Char}

theorem fragment_append_left (h : Bare start) (s : List Char) :
    fragment (start ++ s) = fragment s := by
  rw [fragment, cut_append_left h.2, fragment]

theorem query_append_left (h : Bare start) (s : List Char) :
    query (start ++ s) = query s := by
  rw [query, cut_append_left h.2, cut_append_left h.1, query]

theorem path_append_left (h : Bare start) (s : List Char) :
    path (start ++ s) = barePath (start ++ (cut '?' (cut '#' s).1).1) := by
  rw [path, cut_append_left h.2, cut_append_left h.1]

end Start

/-- Behind a scheme and two slashes the path starts at the first slash. -/
theorem barePath_scheme {name : List Char} (hname : name ≠ [])
    (h : ∀ c ∈ name, isNameChar c = true) (rest : List Char) :
    barePath (name ++ ':' :: '/' :: '/' :: rest) = rest.dropWhile fun c => c ≠ '/' := by
  have htake : (name ++ ':' :: '/' :: '/' :: rest).takeWhile isNameChar = name := by
    rw [List.takeWhile_append_of_pos h]
    exact List.append_nil name
  have hdrop : (name ++ ':' :: '/' :: '/' :: rest).dropWhile isNameChar
      = ':' :: '/' :: '/' :: rest := by
    rw [List.dropWhile_append_of_pos h]
    rfl
  have hscheme : afterScheme (name ++ ':' :: '/' :: '/' :: rest) = '/' :: '/' :: rest := by
    rw [afterScheme, htake, hdrop, if_pos ⟨hname, rfl⟩, List.tail_cons]
  have htwo : ('/' :: '/' :: rest).take 2 = ['/', '/'] := rfl
  rw [barePath, hscheme, afterAuthority, if_pos htwo]
  rfl

/-! ## Parameters at the end -/

/-- A piece of a split has no separator, and its characters are of the text. -/
theorem of_mem_splitOn {c : Char} {s piece : List Char} (h : piece ∈ s.splitOn c) :
    c ∉ piece ∧ ∀ d ∈ piece, d ∈ s := by
  induction s generalizing piece with
  | nil =>
      rw [List.splitOn_nil, List.mem_singleton] at h
      rw [h]
      exact ⟨List.not_mem_nil, fun d hd => hd⟩
  | cons x s ih =>
      rw [List.splitOn_cons_eq_if_modifyHead] at h
      by_cases hx : (x == c) = true
      · rw [if_pos hx, List.mem_cons] at h
        rcases h with rfl | h
        · exact ⟨List.not_mem_nil, fun d hd => absurd hd List.not_mem_nil⟩
        · obtain ⟨hfree, hmem⟩ := ih h
          exact ⟨hfree, fun d hd => List.mem_cons_of_mem _ (hmem d hd)⟩
      · rw [if_neg hx] at h
        obtain ⟨first, rest, hsplit⟩ := List.exists_cons_of_ne_nil (List.splitOn_ne_nil c s)
        rw [hsplit] at h ih
        rw [List.modifyHead_cons, List.mem_cons] at h
        rcases h with rfl | h
        · obtain ⟨hfree, hmem⟩ := ih (List.mem_cons_self ..)
          refine ⟨?_, ?_⟩
          · rw [List.mem_cons, not_or]
            refine ⟨?_, hfree⟩
            rintro rfl
            exact hx (beq_self_eq_true _)
          · intro d hd
            rcases List.mem_cons.mp hd with rfl | hd
            · exact List.mem_cons_self ..
            · exact List.mem_cons_of_mem _ (hmem d hd)
        · obtain ⟨hfree, hmem⟩ := ih (List.mem_cons_of_mem _ h)
          exact ⟨hfree, fun d hd => List.mem_cons_of_mem _ (hmem d hd)⟩

@[simp] theorem params_none : params none = [] := rfl

@[simp] theorem params_empty : params (some []) = [] := rfl

theorem params_append (q more : List Char) :
    params (some (q ++ '&' :: more)) = params (some q) ++ params (some more) := by
  rw [params, params, params, Option.getD_some, Option.getD_some, Option.getD_some,
    List.splitOn_append_cons_self, List.filter_append]

theorem params_of_not_mem {p : List Char} (hp : '&' ∉ p) (hne : p ≠ []) :
    params (some p) = [p] := by
  rw [params, Option.getD_some, List.splitOn_eq_singleton hp]
  simp [hne]

theorem of_mem_params {p q : List Char} (h : p ∈ params (some q)) :
    '&' ∉ p ∧ ∀ d ∈ p, d ∈ q :=
  of_mem_splitOn (List.mem_of_mem_filter h)

/-- A text is the one parameter of what is read of it, or there is none, or it is not. -/
theorem params_cut_eq {added : List Char} (hne : added ≠ []) :
    params (some (cut '#' added).1) = [added] ↔ '&' ∉ added ∧ '#' ∉ added := by
  constructor
  · intro h
    have hmem : added ∈ params (some (cut '#' added).1) := by
      rw [h]
      exact List.mem_singleton.mpr rfl
    obtain ⟨hfree, hread⟩ := of_mem_params hmem
    exact ⟨hfree, fun hhash => not_mem_cut '#' added (hread '#' hhash)⟩
  · rintro ⟨hand, hhash⟩
    rw [cut_of_not_mem hhash]
    exact params_of_not_mem hand hne

end UrlText
