import Freestanding.CString.Tokens
import Mathlib.Data.List.TakeWhile

/-!
# Tokens Are Runs

A string comes apart into the runs of characters between its delimiters, and
into nothing else.

Splitting goes from the front of a string to its end and never looks back, so
what it has to come to is said here without a direction, in two ways. A run is
a range of the text that cannot be made longer: it has no delimiter in it, and
on each side of it there is one, or nothing. The tokens are the runs, each of
them once and in the order of their places. The other way is to go from the
tokens to the text. A text is strung together from tokens if they stand in it
one after the other with delimiters between them, and there may be delimiters
in front of the first one and behind the last one.

Every text is strung together from some tokens, and splitting gives exactly
these back, whatever was put between them. So a text determines its tokens, and
all else about them is read off the text that they were strung into, by
induction along the string and without the steps of the splitting.

That splitting ends is part of what is said. `Tokens.Yields` has a number of
tokens and then the answer that there is no other, and no bound on how often is
asked.

## Main definitions

* `Tokens.Yields`: Asking for tokens until there are no more.
* `IsToken`: What a token looks like.
* `Strung`: A text made of tokens and the delimiters behind them.
* `DelimAt`, `KeptAt`: What is at a place of a text.
* `IsRun`, `AreRuns`: A range between delimiters, and all of them.

## Theorems

* `exists_strung`: Every text is made of tokens.
* `Strung.flatten_eq`: Together they are the text without its delimiters.
* `Tokens.next_eq_none`, `Tokens.next_eq_some`: One step on such a text.
* `Strung.yields`, `Strung.split_eq`: The tokens that a text is made of are
  split off.
* `isRun_token`, `IsRun.eq_token`, `isRun_behind`, `AreRuns.cons`: The runs of a
  text, token by token.
* `Strung.exists_runs`: The tokens that a text is made of are its runs.
* `split_into_runs`: The tokens of a string.
-/

namespace Freestanding

namespace CString

/-- Asked for one token after the other, `t` yields these tokens and then no
    more. -/
inductive Tokens.Yields : Tokens → List Bytes → Prop where
  | nil {t u : Tokens} (last : t.next = .ok (none, u)) : Yields t []
  | cons {t u : Tokens} {token : Bytes} {names : List Bytes}
      (first : t.next = .ok (some token, u)) (more : Yields u names) : Yields t (token :: names)

/-- A token has at least one character, and no delimiter and no zero among
    them. -/
structure IsToken (delims token : Bytes) : Prop where
  nonempty : token ≠ []
  kept : ∀ b ∈ token, b ∉ delims
  nonzero : 0 ∉ token

/-- A text is made of tokens and the delimiters behind each of them, in order.
    There is at least one delimiter before the next token. -/
inductive Strung (delims : Bytes) : List Bytes → Bytes → Prop where
  | nil : Strung delims [] []
  | cons {token gap text : Bytes} {names : List Bytes} (htoken : IsToken delims token)
      (hgap : gap ⊆ delims) (hapart : names ≠ [] → gap ≠ []) (rest : Strung delims names text) :
      Strung delims (token :: names) (token ++ (gap ++ text))

/-- At the place `i` of a text, there is a delimiter. -/
def DelimAt (delims text : Bytes) (i : Nat) : Prop :=
  ∃ b, text[i]? = some b ∧ b ∈ delims

/-- At the place `i` of a text, there is a character of a token. -/
def KeptAt (delims text : Bytes) (i : Nat) : Prop :=
  ∃ b, text[i]? = some b ∧ b ∉ delims

/-- From `lo` up to `hi`, there is at least one character and no delimiter. The
    range ends on each side at a delimiter or where the text does. -/
structure IsRun (delims text : Bytes) (lo hi : Nat) : Prop where
  nonempty : lo < hi
  kept : ∀ i, lo ≤ i → i < hi → KeptAt delims text i
  before : lo = 0 ∨ DelimAt delims text (lo - 1)
  behind : hi = text.length ∨ DelimAt delims text hi

/-- These are all runs of a text, in the order of their places. -/
structure AreRuns (delims text : Bytes) (runs : List (Nat × Nat)) : Prop where
  sorted : runs.Pairwise fun r q => r.2 < q.1
  mem_iff : ∀ lo hi, (lo, hi) ∈ runs ↔ IsRun delims text lo hi

/-- Every text without a zero is made of delimiters, and of tokens with the
    delimiters behind them. -/
theorem exists_strung (delims : Bytes) {text : Bytes} (hzero : 0 ∉ text) :
    ∃ front body names, text = front ++ body ∧ front ⊆ delims ∧ Strung delims names body := by
  induction text with
  | nil => exact ⟨[], [], [], rfl, List.nil_subset _, .nil⟩
  | cons b text ih =>
      rw [List.mem_cons, not_or] at hzero
      rcases hzero with ⟨hb, htext⟩
      rcases ih htext with ⟨front, body, names, rfl, hfront, hbody⟩
      by_cases hdelim : b ∈ delims
      · exact ⟨b :: front, body, names, rfl, List.cons_subset.mpr ⟨hdelim, hfront⟩, hbody⟩
      · -- The byte stands in front of a token or is one of its own.
        have hone : IsToken delims [b] :=
          ⟨List.cons_ne_nil _ _, List.forall_mem_singleton.mpr hdelim,
            List.not_mem_cons_of_ne_of_not_mem hb List.not_mem_nil⟩
        cases front with
        | cons d front =>
            refine ⟨[], _, [b] :: names, rfl, List.nil_subset _, ?_⟩
            exact .cons hone hfront (fun _ => List.cons_ne_nil _ _) hbody
        | nil =>
            cases hbody with
            | nil =>
                refine ⟨[], _, [[b]], rfl, List.nil_subset _, ?_⟩
                exact .cons hone (List.nil_subset _) (fun h => absurd rfl h) .nil
            | @cons token gap rest names htoken hgap hapart hrest =>
                have hlonger : IsToken delims (b :: token) :=
                  ⟨List.cons_ne_nil _ _, List.forall_mem_cons.mpr ⟨hdelim, htoken.kept⟩,
                    List.not_mem_cons_of_ne_of_not_mem hb htoken.nonzero⟩
                refine ⟨[], _, (b :: token) :: names, rfl, List.nil_subset _, ?_⟩
                exact .cons hlonger hgap hapart hrest

/-- Delimiters in front of a text are gone without the delimiters. -/
theorem filter_front {delims front : Bytes} (hfront : front ⊆ delims) (text : Bytes) :
    ((front ++ text).filter fun b => b ∉ delims) = text.filter fun b => b ∉ delims := by
  have hgone : (front.filter fun b => b ∉ delims) = [] := by
    rw [List.filter_eq_nil_iff]
    exact fun b hb hout => of_decide_eq_true hout (hfront hb)
  rw [List.filter_append, hgone, List.nil_append]

/-- Delimiters in front of a text bring no zero into it. -/
theorem zero_notMem_front {delims front text : Bytes} (hfront : front ⊆ chars delims)
    (htext : 0 ∉ text) : 0 ∉ front ++ text := by
  rw [List.mem_append, not_or]
  exact ⟨fun h0 => zero_notMem_chars delims (hfront h0), htext⟩

namespace Strung

variable {delims text : Bytes} {names : List Bytes}

/-- What is behind a token is a delimiter, or nothing. -/
theorem head_mem {gap : Bytes} (h : Strung delims names text) (hgap : gap ⊆ delims)
    (hapart : names ≠ [] → gap ≠ []) : ∀ b, (gap ++ text).head? = some b → b ∈ delims := by
  intro b hb
  cases gap with
  | cons d gap =>
      cases hb
      exact hgap List.mem_cons_self
  | nil =>
      -- Without a delimiter there is no other token.
      cases h with
      | nil => cases hb
      | cons htoken hgap' hapart' rest => exact absurd rfl (hapart (List.cons_ne_nil _ _))

/-- A text made of tokens has no zero if there is none among the delimiters. -/
theorem zero_notMem (h : Strung delims names text) (hzero : 0 ∉ delims) : 0 ∉ text := by
  induction h with
  | nil => exact List.not_mem_nil
  | cons htoken hgap hapart rest ih =>
      rw [List.mem_append, List.mem_append]
      rintro (h0 | h0 | h0)
      · exact htoken.nonzero h0
      · exact hzero (hgap h0)
      · exact ih h0

theorem isToken (h : Strung delims names text) : ∀ token ∈ names, IsToken delims token := by
  induction h with
  | nil => exact fun token htoken => absurd htoken List.not_mem_nil
  | cons htoken hgap hapart rest ih => exact List.forall_mem_cons.mpr ⟨htoken, ih⟩

/-- There are at most as many tokens as characters. -/
theorem length_le (h : Strung delims names text) : names.length ≤ text.length := by
  induction h with
  | nil => exact Nat.le_refl _
  | cons htoken hgap hapart rest ih =>
      have hpos := List.length_pos_iff.mpr htoken.nonempty
      simp only [List.length_cons, List.length_append]
      omega

/-- The tokens together are the text without its delimiters, also with more of
    them in front. -/
theorem flatten_eq {front : Bytes} (h : Strung delims names text) (hfront : front ⊆ delims) :
    names.flatten = (front ++ text).filter fun b => b ∉ delims := by
  induction h generalizing front with
  | nil => exact (filter_front hfront []).symm
  | @cons token gap text names htoken hgap hapart rest ih =>
      have hkept : (token.filter fun b => b ∉ delims) = token := by
        rw [List.filter_eq_self]
        exact fun b hb => decide_eq_true (htoken.kept b hb)
      rw [List.flatten_cons, filter_front hfront, List.filter_append, hkept, ih hgap]

end Strung

namespace Tokens

variable {delims front : Bytes}

theorem contains_of_subset (hfront : front ⊆ chars delims) :
    ∀ b ∈ front, (chars delims).contains b = true :=
  fun _ hb => List.contains_iff_mem.mpr (hfront hb)

/-- Delimiters alone have no token. -/
theorem next_eq_none (hfront : front ⊆ chars delims) (hlen : front.length + 1 < Word.limit) :
    next ⟨front, delims⟩ = .ok (none, ⟨[], delims⟩) := by
  have hzero : 0 ∉ front := fun h0 => zero_notMem_chars delims (hfront h0)
  have hskip : front.dropWhile (chars delims).contains = [] :=
    List.dropWhile_eq_nil_iff.mpr (contains_of_subset hfront)
  rw [next_eq hzero hlen]
  simp only [hskip, List.isEmpty_nil, if_true]

/-- Leaving out the delimiters in front of a token leaves out nothing else. -/
theorem dropWhile_front {token behind : Bytes} (hfront : front ⊆ chars delims)
    (htoken : IsToken (chars delims) token) :
    (front ++ (token ++ behind)).dropWhile (chars delims).contains = token ++ behind := by
  rw [List.dropWhile_append_of_pos (contains_of_subset hfront)]
  cases token with
  | nil => exact absurd rfl htoken.nonempty
  | cons b token =>
      refine List.dropWhile_cons_of_neg ?_
      rw [List.contains_iff_mem]
      exact htoken.kept b List.mem_cons_self

/-- The run at the front of a text is its token if a delimiter ends it, or the
    text does. -/
theorem span_token {token behind : Bytes} (htoken : IsToken (chars delims) token)
    (hhead : ∀ b, behind.head? = some b → b ∈ chars delims) :
    ((token ++ behind).takeWhile fun b => !(chars delims).contains b) = token ∧
      ((token ++ behind).dropWhile fun b => !(chars delims).contains b) = behind := by
  have hkept : ∀ b ∈ token, (!(chars delims).contains b) = true := fun b hb => by
    rw [Bool.not_eq_true', ← Bool.not_eq_true, List.contains_iff_mem]
    exact htoken.kept b hb
  rw [List.takeWhile_append_of_pos hkept, List.dropWhile_append_of_pos hkept]
  cases behind with
  | nil => exact ⟨List.append_nil _, rfl⟩
  | cons d behind =>
      have hd : ¬(!(chars delims).contains d) = true := by
        rw [Bool.not_eq_true', Bool.not_eq_false, List.contains_iff_mem]
        exact hhead d rfl
      have hstop : ((d :: behind).takeWhile fun b => !(chars delims).contains b) = [] :=
        List.takeWhile_cons_of_neg hd
      exact ⟨by rw [hstop, List.append_nil], List.dropWhile_cons_of_neg hd⟩

/-- Behind delimiters, the next token ends at the next delimiter or with the
    text. It is split off with that delimiter. -/
theorem next_eq_some {token behind : Bytes} (hfront : front ⊆ chars delims)
    (htoken : IsToken (chars delims) token)
    (hhead : ∀ b, behind.head? = some b → b ∈ chars delims) (hzero : 0 ∉ behind)
    (hlen : (front ++ (token ++ behind)).length + 1 < Word.limit) :
    next ⟨front ++ (token ++ behind), delims⟩ = .ok (some token, ⟨behind.drop 1, delims⟩) := by
  have hnozero : 0 ∉ front ++ (token ++ behind) := by
    refine zero_notMem_front hfront ?_
    rw [List.mem_append, not_or]
    exact ⟨htoken.nonzero, hzero⟩
  have hsome : ¬(token ++ behind).isEmpty = true := by
    rw [List.isEmpty_iff, List.append_eq_nil_iff]
    exact fun h => htoken.nonempty h.1
  rcases span_token htoken hhead with ⟨htake, hdrop⟩
  rw [next_eq hnozero hlen]
  simp only [dropWhile_front hfront htoken]
  rw [if_neg hsome, htake, hdrop]

/-- Asking for one token more than there are finds all of them and the end. -/
theorem Yields.collect_eq {t : Tokens} {names : List Bytes} {n : Nat} (h : t.Yields names)
    (hn : names.length < n) : collect n t = .ok names := by
  induction h generalizing n with
  | nil last =>
      cases n with
      | zero => cases hn
      | succ n =>
          rw [collect, last]
          rfl
  | cons first more ih =>
      cases n with
      | zero => cases hn
      | succ n =>
          rw [collect, first, Checked.ok_bind]
          dsimp only
          rw [ih (Nat.lt_of_succ_lt_succ hn)]
          rfl

end Tokens

namespace Strung

variable {delims front text : Bytes} {names : List Bytes}

/-- A text yields the tokens that it is made of. -/
theorem yields (h : Strung (chars delims) names text) (hfront : front ⊆ chars delims)
    (hlen : (front ++ text).length + 1 < Word.limit) :
    Tokens.Yields ⟨front ++ text, delims⟩ names := by
  induction h generalizing front with
  | nil =>
      rw [List.append_nil] at hlen ⊢
      exact .nil (Tokens.next_eq_none hfront hlen)
  | @cons token gap text names htoken hgap hapart rest ih =>
      have hzero : 0 ∉ gap ++ text :=
        zero_notMem_front hgap (rest.zero_notMem (zero_notMem_chars delims))
      refine .cons (Tokens.next_eq_some hfront htoken (rest.head_mem hgap hapart) hzero hlen) ?_
      -- The delimiter that ends the token is gone, and the others are in front.
      have hleft : (gap ++ text).drop 1 = gap.drop 1 ++ text := by
        cases gap with
        | cons d gap => rfl
        | nil =>
            cases rest with
            | nil => rfl
            | cons _ _ _ _ => exact absurd rfl (hapart (List.cons_ne_nil _ _))
      rw [hleft]
      refine ih (List.Subset.trans (List.drop_subset 1 gap) hgap) ?_
      simp only [List.length_append, List.length_drop] at hlen ⊢
      omega

/-- A string is split into the tokens that it is made of. -/
theorem split_eq {s : Bytes} (h : Strung (chars delims) names text)
    (hfront : front ⊆ chars delims) (hs : chars s = front ++ text)
    (hlen : s.length + 1 < Word.limit) :
    Tokens.Yields ⟨chars s, chars delims⟩ names ∧ split s delims = .ok names := by
  have hword : (front ++ text).length + 1 < Word.limit := by
    have hle := length_chars_le s
    rw [hs] at hle
    omega
  have hcount := h.length_le
  have hyields : Tokens.Yields ⟨chars s, chars delims⟩ names := by
    rw [hs]
    rw [← chars_chars] at h hfront
    exact h.yields hfront hword
  refine ⟨hyields, ?_⟩
  rw [CString.split_eq, Tokens.toList]
  refine hyields.collect_eq ?_
  rw [hs, List.length_append]
  omega

end Strung

section

variable {delims front token behind : Bytes}

/-- A place with a character of a token has no delimiter. -/
theorem KeptAt.not_delimAt {text : Bytes} {i : Nat} (h : KeptAt delims text i) :
    ¬DelimAt delims text i := by
  rintro ⟨d, hd, hdelim⟩
  rcases h with ⟨b, hb, hkept⟩
  rw [hb, Option.some.injEq] at hd
  exact hkept (hd ▸ hdelim)

/-- What is behind a token starts with a delimiter, if there is anything. -/
theorem not_keptAt_zero (hhead : ∀ b, behind.head? = some b → b ∈ delims) :
    ¬KeptAt delims behind 0 := by
  rintro ⟨b, hb, hkept⟩
  rw [← List.head?_eq_getElem?] at hb
  exact hkept (hhead b hb)

/-- What is behind a token has its runs of kept characters behind its first
    character, which is a delimiter. -/
theorem IsRun.pos {i j : Nat} (h : IsRun delims behind i j)
    (hhead : ∀ b, behind.head? = some b → b ∈ delims) : 0 < i := by
  refine Nat.pos_of_ne_zero fun h0 => not_keptAt_zero hhead ?_
  exact h.kept 0 (Nat.le_of_eq h0) (h0 ▸ h.nonempty)

theorem getElem?_behind (front token behind : Bytes) (i : Nat) :
    (front ++ (token ++ behind))[front.length + token.length + i]? = behind[i]? := by
  rw [List.getElem?_append_right (by omega), List.getElem?_append_right (by omega)]
  congr 1
  omega

theorem keptAt_behind {i : Nat} :
    KeptAt delims (front ++ (token ++ behind)) (front.length + token.length + i) ↔
      KeptAt delims behind i := by
  rw [KeptAt, KeptAt, getElem?_behind]

theorem delimAt_behind {i : Nat} :
    DelimAt delims (front ++ (token ++ behind)) (front.length + token.length + i) ↔
      DelimAt delims behind i := by
  rw [DelimAt, DelimAt, getElem?_behind]

theorem delimAt_front {i : Nat} (hfront : front ⊆ delims) (hi : i < front.length) :
    DelimAt delims (front ++ behind) i :=
  ⟨front[i], by rw [List.getElem?_append_left hi, List.getElem?_eq_getElem hi],
    hfront (List.getElem_mem hi)⟩

theorem keptAt_token {i : Nat} (htoken : IsToken delims token) (hlo : front.length ≤ i)
    (hhi : i < front.length + token.length) :
    KeptAt delims (front ++ (token ++ behind)) i := by
  have hi : i - front.length < token.length := by omega
  refine ⟨token[i - front.length], ?_, htoken.kept _ (List.getElem_mem hi)⟩
  rw [List.getElem?_append_right hlo, List.getElem?_append_left hi, List.getElem?_eq_getElem hi]

theorem length_around (front token behind : Bytes) :
    (front ++ (token ++ behind)).length = front.length + token.length + behind.length := by
  rw [List.length_append, List.length_append, Nat.add_assoc]

/-- A token with delimiters around it is a run. -/
theorem isRun_token (hfront : front ⊆ delims) (htoken : IsToken delims token)
    (hhead : ∀ b, behind.head? = some b → b ∈ delims) :
    IsRun delims (front ++ (token ++ behind)) front.length (front.length + token.length) := by
  refine ⟨Nat.lt_add_of_pos_right (List.length_pos_iff.mpr htoken.nonempty),
    fun i => keptAt_token htoken, ?_, ?_⟩
  · rcases Nat.eq_zero_or_pos front.length with h0 | hlast
    · exact Or.inl h0
    · exact Or.inr (delimAt_front hfront (Nat.sub_lt hlast Nat.one_pos))
  · cases behind with
    | nil =>
        left
        rw [List.append_nil, List.length_append]
    | cons d behind =>
        right
        rw [← Nat.add_zero (front.length + token.length), delimAt_behind]
        exact ⟨d, rfl, hhead d rfl⟩

/-- A run that starts no later than a token ends is that token. -/
theorem IsRun.eq_token {lo hi : Nat} (h : IsRun delims (front ++ (token ++ behind)) lo hi)
    (hfront : front ⊆ delims) (htoken : IsToken delims token)
    (hhead : ∀ b, behind.head? = some b → b ∈ delims) (hlo : lo < front.length + token.length) :
    lo = front.length ∧ hi = front.length + token.length := by
  have hlt := h.nonempty
  have hin : front.length ≤ lo := by
    by_contra hout
    exact (h.kept lo (Nat.le_refl _) hlt).not_delimAt
      (delimAt_front hfront (Nat.lt_of_not_le hout))
  have hstart : lo = front.length := by
    by_contra hne
    -- Then the byte in front of the run is one of the token.
    rcases h.before with h0 | hdelim
    · omega
    · exact (keptAt_token htoken (by omega) (by omega)).not_delimAt hdelim
  have hle : hi ≤ front.length + token.length := by
    by_contra hout
    have hkept := h.kept _ (Nat.le_of_lt hlo) (Nat.lt_of_not_le hout)
    rw [← Nat.add_zero (front.length + token.length), keptAt_behind] at hkept
    exact not_keptAt_zero hhead hkept
  refine ⟨hstart, Nat.le_antisymm hle ?_⟩
  by_contra hout
  rcases h.behind with hall | hdelim
  · rw [length_around] at hall
    omega
  · exact (keptAt_token htoken (by omega) (Nat.lt_of_not_le hout)).not_delimAt hdelim

/-- Behind a token, the runs of a text are those of what is behind it. -/
theorem isRun_behind {i j : Nat} (hhead : ∀ b, behind.head? = some b → b ∈ delims) :
    IsRun delims (front ++ (token ++ behind)) (front.length + token.length + i)
        (front.length + token.length + j) ↔
      IsRun delims behind i j := by
  constructor
  · intro h
    refine ⟨Nat.lt_of_add_lt_add_left h.nonempty, fun k hk hkj => ?_, ?_, ?_⟩
    · exact keptAt_behind.mp (h.kept _ (Nat.add_le_add_left hk _) (Nat.add_lt_add_left hkj _))
    · rcases Nat.eq_zero_or_pos i with h0 | hi
      · exact Or.inl h0
      · refine h.before.imp (fun h0 => by omega) fun hdelim => ?_
        rwa [Nat.add_sub_assoc hi, delimAt_behind] at hdelim
    · refine h.behind.imp (fun hall => ?_) delimAt_behind.mp
      rw [length_around] at hall
      exact Nat.add_left_cancel hall
  · intro h
    have hi := h.pos hhead
    refine ⟨Nat.add_lt_add_left h.nonempty _, fun k hk hkj => ?_, ?_, ?_⟩
    · rcases Nat.exists_eq_add_of_le (Nat.le_trans (Nat.le_add_right _ _) hk) with ⟨k, rfl⟩
      exact keptAt_behind.mpr
        (h.kept k (Nat.le_of_add_le_add_left hk) (Nat.lt_of_add_lt_add_left hkj))
    · refine Or.inr ?_
      rw [Nat.add_sub_assoc hi, delimAt_behind]
      exact h.before.resolve_left (Nat.ne_of_gt hi)
    · refine h.behind.imp (fun hall => ?_) delimAt_behind.mpr
      rw [hall, length_around]

end

/-- The runs of a text that starts with a token, from those of what is behind
    it. -/
theorem AreRuns.cons {delims front token behind : Bytes} {runs : List (Nat × Nat)}
    (h : AreRuns delims behind runs) (hfront : front ⊆ delims) (htoken : IsToken delims token)
    (hhead : ∀ b, behind.head? = some b → b ∈ delims) :
    AreRuns delims (front ++ (token ++ behind))
      ((front.length, front.length + token.length) :: runs.map fun r =>
        (front.length + token.length + r.1, front.length + token.length + r.2)) := by
  constructor
  · rw [List.pairwise_cons, List.pairwise_map]
    refine ⟨fun r hr => ?_, h.sorted.imp fun hlt => Nat.add_lt_add_left hlt _⟩
    rcases List.mem_map.mp hr with ⟨⟨i, j⟩, hij, rfl⟩
    exact Nat.lt_add_of_pos_right (((h.mem_iff i j).mp hij).pos hhead)
  · intro lo hi
    rw [List.mem_cons, List.mem_map, Prod.mk.injEq]
    constructor
    · rintro (⟨rfl, rfl⟩ | ⟨⟨i, j⟩, hij, hsame⟩)
      · exact isRun_token hfront htoken hhead
      · cases hsame
        exact (isRun_behind hhead).mpr ((h.mem_iff i j).mp hij)
    · intro hrun
      rcases Nat.lt_or_ge lo (front.length + token.length) with hlo | hlo
      · exact Or.inl (hrun.eq_token hfront htoken hhead hlo)
      · rcases Nat.exists_eq_add_of_le hlo with ⟨i, rfl⟩
        rcases Nat.exists_eq_add_of_le (Nat.le_trans hlo (Nat.le_of_lt hrun.nonempty)) with
          ⟨j, rfl⟩
        exact Or.inr ⟨(i, j), (h.mem_iff i j).mpr ((isRun_behind hhead).mp hrun), rfl⟩

/-- A token is cut out of a text at its place. -/
theorem cut_token (front token behind : Bytes) :
    ((front ++ (token ++ behind)).take (front.length + token.length)).drop front.length
      = token := by
  rw [List.take_length_add_append, List.take_left, List.drop_left]

/-- What is behind a token is cut out of a text like out of a text alone. -/
theorem cut_behind (front token behind : Bytes) (i j : Nat) :
    ((front ++ (token ++ behind)).take (front.length + token.length + j)).drop
        (front.length + token.length + i) = (behind.take j).drop i := by
  rw [← List.append_assoc, ← List.length_append, List.take_length_add_append,
    List.drop_length_add_append]

/-- The tokens that a text is made of are its runs, in the order of their
    places. -/
theorem Strung.exists_runs {delims front text : Bytes} {names : List Bytes}
    (h : Strung delims names text) (hfront : front ⊆ delims) :
    ∃ runs, AreRuns delims (front ++ text) runs ∧
      names = runs.map fun r => ((front ++ text).take r.2).drop r.1 := by
  induction h generalizing front with
  | nil =>
      refine ⟨[], ⟨.nil, fun lo hi => ⟨fun hmem => ?_, fun hrun => ?_⟩⟩, rfl⟩
      · exact absurd hmem List.not_mem_nil
      · -- There are only delimiters.
        rcases hrun.kept lo (Nat.le_refl _) hrun.nonempty with ⟨b, hb, hkept⟩
        rw [List.append_nil] at hb
        exact absurd (hfront (List.mem_of_getElem? hb)) hkept
  | @cons token gap text names htoken hgap hapart rest ih =>
      rcases ih hgap with ⟨runs, hruns, hnames⟩
      refine ⟨_, hruns.cons hfront htoken (rest.head_mem hgap hapart), ?_⟩
      rw [List.map_cons, List.map_map, cut_token, hnames]
      congr 1
      exact List.map_congr_left fun r _ => (cut_behind front token (gap ++ text) r.1 r.2).symm

/-- Asking for the tokens of a string comes to an end. They are the runs of the
    string, each of them once and in the order of their places, and together
    they are the string without its delimiters. A text that is strung together
    from tokens, with or without delimiters in front, is split into these
    tokens. A string with at least one character is a single token where no
    byte is a delimiter. -/
theorem split_into_runs (delims : Bytes) :
    (∀ s : Bytes, s.length + 1 < Word.limit →
      ∃ t names, tokens s delims = .ok t ∧ t.Yields names ∧ split s delims = .ok names ∧
        (∃ runs, AreRuns (chars delims) (chars s) runs ∧
          names = runs.map fun r => ((chars s).take r.2).drop r.1) ∧
        (∀ token ∈ names, IsToken (chars delims) token) ∧
        names.flatten = (chars s).filter fun b => b ∉ chars delims) ∧
    (∀ front text names, front ⊆ chars delims → Strung (chars delims) names text →
      (front ++ text).length + 1 < Word.limit → split (front ++ text) delims = .ok names) ∧
    ∀ s : Bytes, s.length + 1 < Word.limit → chars delims = [] → chars s ≠ [] →
      split s delims = .ok [chars s] := by
  refine ⟨fun s hs => ?_, fun front text names hfront hnames hlen => ?_, fun s hs hnone hsome => ?_⟩
  · rcases exists_strung (chars delims) (zero_notMem_chars s) with
      ⟨front, text, names, htext, hfront, hnames⟩
    rcases hnames.split_eq hfront htext hs with ⟨hyields, hsplit⟩
    have hruns := hnames.exists_runs hfront
    have hflatten := hnames.flatten_eq hfront
    rw [← htext] at hruns hflatten
    exact ⟨_, names, tokens_eq s delims, hyields, hsplit, hruns, hnames.isToken, hflatten⟩
  · have hzero := hnames.zero_notMem (zero_notMem_chars delims)
    exact (hnames.split_eq hfront (chars_eq_self (zero_notMem_front hfront hzero)) hlen).2
  · have htoken : IsToken (chars delims) (chars s) :=
      ⟨hsome, fun b _ hb => List.not_mem_nil (hnone ▸ hb), zero_notMem_chars s⟩
    have hempty : [] ⊆ chars delims := List.nil_subset _
    have hwhole : Strung (chars delims) [chars s] (chars s ++ ([] ++ [])) :=
      .cons htoken hempty (fun h => absurd rfl h) .nil
    refine (hwhole.split_eq hempty ?_ hs).2
    rw [List.nil_append, List.nil_append, List.append_nil]

/-- Two tokens with delimiters around them, among which the last byte of the
    set is not because a zero is in front of it, and a string that no delimiter
    can split. -/
theorem split_at_commas :
    Strung (chars [44, 32, 0, 65]) [[65, 66], [67]] [65, 66, 44, 32, 67, 44] ∧
    (∃ t, tokens [44, 44, 65, 66, 44, 32, 67, 44] [44, 32, 0, 65] = .ok t ∧
      t.Yields [[65, 66], [67]]) ∧
    split [65, 44, 0, 66] [] = .ok [[65, 44]] := by
  have hdelims : chars [44, 32, 0, 65] = [44, 32] := by decide
  have hstrung : Strung (chars [44, 32, 0, 65]) [[65, 66], [67]] [65, 66, 44, 32, 67, 44] := by
    rw [hdelims]
    have hfirst : IsToken [44, 32] [65, 66] := ⟨by decide, by simp, by decide⟩
    have hsecond : IsToken [44, 32] [67] := ⟨by decide, by simp, by decide⟩
    have hrest : Strung [44, 32] [[67]] ([67] ++ ([44] ++ [])) :=
      .cons hsecond (by decide) (by decide) .nil
    have hall : Strung [44, 32] [[65, 66], [67]] ([65, 66] ++ ([44, 32] ++ [67, 44])) :=
      .cons hfirst (by decide) (by decide) hrest
    exact hall
  rcases split_into_runs [44, 32, 0, 65] with ⟨hruns, hjoined, -⟩
  have hsplit := hjoined [44, 44] _ _ (by decide) hstrung (by decide)
  rcases hruns [44, 44, 65, 66, 44, 32, 67, 44] (by decide) with ⟨t, names, ht, hnames, hsame, -⟩
  cases hsame.symm.trans hsplit
  refine ⟨hstrung, ⟨t, ht, hnames⟩, ?_⟩
  exact (split_into_runs []).2.2 [65, 44, 0, 66] (by decide) (by decide) (by decide)

end CString

end Freestanding
