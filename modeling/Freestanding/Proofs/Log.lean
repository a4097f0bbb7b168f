import Freestanding.Log

/-!
# What the Log Says

The lines of a log can be read.

A record is printed for people, as words with numbers in between, and nothing
marks where a number stops. It stops where its digits do. Digits are letters
or figures, in base ten as well as in base sixteen, and what comes behind a
number in a text is neither: a blank, a colon or a bracket, or the end. So a
number is what a run of such characters says, and the rest of the text is what
is behind the run.

That is enough to read everything. A block in a map ends with a bracket, so a
map falls into its blocks, and they are read one after the other. A record is
told from others by its first words, and then its numbers are read in the order
in which the text has them. So two records with one text are one record, and
what is known of the records of an operation is known to anybody who has the
lines.

## Theorems

* `append_inj_of_head`: A run ends where the first other character is.
* `toDigits_inj`, `toDigits_append_inj`: Numbers are read.
* `BlockInfo.text_append_inj`, `BlockInfo.map_injective`: Maps are read.
* `Heap.Error.message_injective`: Refusals are read.
* `Record.message_injective`: Records are read.
-/

namespace Freestanding

/-- What is in front of the first element without a property is determined by
    the whole, and so is the rest. -/
theorem append_inj_of_head {α : Type} {p : α → Bool} {s s' t t' : List α}
    (hs : ∀ c ∈ s, p c = true) (hs' : ∀ c ∈ s', p c = true)
    (ht : ∀ c ∈ t.head?, p c = false) (ht' : ∀ c ∈ t'.head?, p c = false)
    (h : s ++ t = s' ++ t') : s = s' ∧ t = t' := by
  have hstop {u : List α} (hu : ∀ c ∈ u.head?, p c = false) : u.takeWhile p = [] := by
    cases u with
    | nil => rfl
    | cons c u => exact List.takeWhile_cons_of_neg (Bool.eq_false_iff.mp (hu c rfl))
  have hfront := congrArg (List.takeWhile p) h
  rw [List.takeWhile_append_of_pos hs, List.takeWhile_append_of_pos hs', hstop ht, hstop ht',
    List.append_nil, List.append_nil] at hfront
  subst hfront
  exact ⟨rfl, List.append_cancel_left h⟩

theorem digitChar_inj : ∀ m < 16, ∀ n < 16, Nat.digitChar m = Nat.digitChar n → m = n := by
  decide

theorem isAlphanum_digitChar : ∀ d < 16, (Nat.digitChar d).isAlphanum = true := by
  decide

section

variable {b m n : Nat}

/-- Digits are letters or figures. -/
theorem isAlphanum_of_mem_toDigits (hb : 1 < b ∧ b ≤ 16) (n : Nat) :
    ∀ c ∈ Nat.toDigits b n, c.isAlphanum = true := by
  induction n using Nat.strongRecOn with
  | ind n ih =>
      intro c hc
      by_cases hn : n < b
      · rw [Nat.toDigits_of_lt_base hn, List.mem_singleton] at hc
        rw [hc]
        exact isAlphanum_digitChar n (by omega)
      · have hmod := Nat.mod_lt n (by omega : b > 0)
        rw [Nat.toDigits_of_base_le hb.1 (by omega), List.mem_append, List.mem_singleton] at hc
        rcases hc with hc | rfl
        · exact ih (n / b) (Nat.div_lt_self (by omega) hb.1) c hc
        · exact isAlphanum_digitChar (n % b) (by omega)

/-- One digit is not what a number with more digits is written as. -/
theorem toDigits_ne (hb : 1 < b) (hm : m < b) (hn : b ≤ n) :
    Nat.toDigits b m ≠ Nat.toDigits b n := by
  intro h
  have hlength := congrArg List.length h
  have hpos : 0 < (Nat.toDigits b (n / b)).length := List.length_pos_iff.mpr Nat.toDigits_ne_nil
  rw [Nat.toDigits_of_lt_base hm, Nat.toDigits_of_base_le hb hn, List.length_append,
    List.length_singleton, List.length_singleton] at hlength
  omega

/-- A number is determined by its digits. -/
theorem toDigits_inj (hb : 1 < b ∧ b ≤ 16) (h : Nat.toDigits b m = Nat.toDigits b n) : m = n := by
  induction m using Nat.strongRecOn generalizing n with
  | ind m ih =>
      by_cases hm : m < b
      · by_cases hn : n < b
        · rw [Nat.toDigits_of_lt_base hm, Nat.toDigits_of_lt_base hn, List.singleton_inj] at h
          exact digitChar_inj m (by omega) n (by omega) h
        · exact absurd h (toDigits_ne hb.1 hm (by omega))
      · by_cases hn : n < b
        · exact absurd h.symm (toDigits_ne hb.1 hn (by omega))
        · -- The last digits are the remainders, and those before them are shorter.
          have hmod := Nat.mod_lt m (by omega : b > 0)
          have hmod' := Nat.mod_lt n (by omega : b > 0)
          rw [Nat.toDigits_of_base_le hb.1 (Nat.le_of_not_lt hm),
            Nat.toDigits_of_base_le hb.1 (Nat.le_of_not_lt hn), List.append_singleton_inj] at h
          have hdiv : m / b = n / b := ih (m / b) (Nat.div_lt_self (by omega) hb.1) h.1
          have hlast : m % b = n % b := digitChar_inj _ (by omega) _ (by omega) h.2
          rw [← Nat.div_add_mod m b, ← Nat.div_add_mod n b, hdiv, hlast]

/-- A number is read off the front of a text if what is behind it is neither a
    letter nor a figure. -/
theorem toDigits_append_inj (hb : 1 < b ∧ b ≤ 16) {c d : Char} {s t : List Char}
    (hstop : c.isAlphanum = false ∧ d.isAlphanum = false)
    (h : Nat.toDigits b m ++ c :: s = Nat.toDigits b n ++ d :: t) : m = n ∧ c :: s = d :: t := by
  have hdigits := append_inj_of_head (isAlphanum_of_mem_toDigits hb m)
    (isAlphanum_of_mem_toDigits hb n) (by rintro _ ⟨⟩; exact hstop.1)
    (by rintro _ ⟨⟩; exact hstop.2) h
  exact ⟨toDigits_inj hb hdigits.1, hdigits.2⟩

end

/-- A text is shown as it is. -/
theorem toString_text (s : String) : toString s = s := rfl

theorem toList_toString (n : Nat) : (toString n).toList = Nat.toDigits 10 n := by
  rw [Nat.toString_eq_repr, Nat.toList_repr]

theorem toList_hex (n : Nat) : (hex n).toList = '0' :: 'x' :: Nat.toDigits 16 n := by
  rw [hex, String.toList_append, String.toList_ofList, String.toList_ofList]
  rfl

theorem toList_toString_ofNat (n : Nat) : (toString (Int.ofNat n)).toList = Nat.toDigits 10 n :=
  toList_toString n

theorem toList_toString_negSucc (n : Nat) :
    (toString (Int.negSucc n)).toList = '-' :: Nat.toDigits 10 (n + 1) := by
  show ("-" ++ toString (n + 1)).toList = _
  rw [String.toList_append, toList_toString]
  rfl

/-- A sign is not a digit. -/
theorem minus_cons_ne_toDigits (s : List Char) (n : Nat) : '-' :: s ≠ Nat.toDigits 10 n := by
  intro h
  have hdigit := isAlphanum_of_mem_toDigits (by decide) n '-' (h ▸ List.mem_cons_self)
  exact absurd hdigit (by decide)

/-- Two integers with one text are one integer. -/
theorem toString_int_inj {i j : Int} (h : (toString i).toList = (toString j).toList) : i = j := by
  cases i with
  | ofNat m =>
      rw [toList_toString_ofNat] at h
      cases j with
      | ofNat n =>
          rw [toList_toString_ofNat] at h
          rw [toDigits_inj (by decide) h]
      | negSucc n =>
          rw [toList_toString_negSucc] at h
          exact absurd h.symm (minus_cons_ne_toDigits _ m)
  | negSucc m =>
      rw [toList_toString_negSucc] at h
      cases j with
      | ofNat n =>
          rw [toList_toString_ofNat] at h
          exact absurd h (minus_cons_ne_toDigits _ n)
      | negSucc n =>
          rw [toList_toString_negSucc, List.cons_inj_right] at h
          rw [Nat.succ_inj.mp (toDigits_inj (by decide) h)]

namespace BlockInfo

theorem toList_text (b : BlockInfo) :
    b.text.toList = '[' :: ((useText b.used).toList ++ ' ' :: (Nat.toDigits 10 b.size ++
      ' ' :: '@' :: (Nat.toDigits 10 b.offset ++ [']']))) := by
  unfold text
  simp only [String.toList_append, toString_text, toList_toString, String.reduceToList,
    List.append_assoc, List.cons_append, List.nil_append]

/-- A block is read off the front of a text, whatever is behind it. -/
theorem text_append_inj {b c : BlockInfo} {s t : List Char}
    (h : b.text.toList ++ s = c.text.toList ++ t) : b = c ∧ s = t := by
  rcases b with ⟨offset, used, size⟩
  rcases c with ⟨offset', used', size'⟩
  rw [toList_text, toList_text] at h
  simp only [List.append_assoc, List.cons_append, List.nil_append, List.cons.injEq, true_and] at h
  -- Both words for the use have four letters.
  have hlength : (useText used).toList.length = (useText used').toList.length := by
    cases used <;> cases used' <;> decide
  rcases List.append_inj h hlength with ⟨huse, hrest⟩
  have hused : used = used' := by
    cases used <;> cases used' <;> first | rfl | exact absurd huse (by decide)
  rw [List.cons_inj_right] at hrest
  rcases toDigits_append_inj (by decide) (by decide) hrest with ⟨hsize, hrest⟩
  rw [List.cons_inj_right, List.cons_inj_right] at hrest
  rcases toDigits_append_inj (by decide) (by decide) hrest with ⟨hoffset, hrest⟩
  rw [List.cons_inj_right] at hrest
  exact ⟨by rw [hused, hsize, hoffset], hrest⟩

/-- A map is its first block, and a blank and the map of the others if there are
    any. -/
theorem toList_map_cons (b : BlockInfo) (bs : List BlockInfo) :
    (map (b :: bs)).toList = b.text.toList ++ if bs = [] then [] else ' ' :: (map bs).toList := by
  cases bs with
  | nil =>
      rw [if_pos rfl, List.append_nil, map, String.toList_intercalate]
      exact List.intercalate_singleton
  | cons c bs =>
      rw [if_neg (List.cons_ne_nil c bs), map, map, String.toList_intercalate,
        String.toList_intercalate]
      simp only [List.map_cons, List.intercalate_cons_cons, String.reduceToList, List.append_assoc]
      rfl

theorem map_ne_nil (b : BlockInfo) (bs : List BlockInfo) : (map (b :: bs)).toList ≠ [] := by
  rw [toList_map_cons, toList_text]
  exact List.cons_ne_nil _ _

/-- Blocks that have one map are the same blocks. -/
theorem map_injective : Function.Injective map := by
  intro bs cs hmap
  have h := congrArg String.toList hmap
  clear hmap
  induction bs generalizing cs with
  | nil =>
      cases cs with
      | nil => rfl
      | cons c cs => exact absurd h.symm (map_ne_nil c cs)
  | cons b bs ih =>
      cases cs with
      | nil => exact absurd h (map_ne_nil b bs)
      | cons c cs =>
          rw [toList_map_cons, toList_map_cons] at h
          rcases text_append_inj h with ⟨rfl, hrest⟩
          -- A map ends where a blank does not follow.
          by_cases hbs : bs = []
          · by_cases hcs : cs = []
            · rw [hbs, hcs]
            · rw [if_pos hbs, if_neg hcs] at hrest
              cases hrest
          · by_cases hcs : cs = []
            · rw [if_neg hbs, if_pos hcs] at hrest
              cases hrest
            · rw [if_neg hbs, if_neg hcs, List.cons_inj_right] at hrest
              rw [ih hrest]

end BlockInfo

namespace Heap

/-- Refusals that have one text are the same refusal. -/
theorem Error.message_injective : Function.Injective Error.message := by
  intro e e' hmessage
  have h := congrArg String.toList hmessage
  unfold message at h
  cases e <;> cases e' <;>
    simp only [String.toList_append, toString_text, toList_toString, toList_hex,
      String.reduceToList, List.cons_append, List.nil_append, List.cons.injEq, Char.reduceEq,
      true_and, false_and] at h
  case exhausted.exhausted n n' => rw [(toDigits_append_inj (by decide) (by decide) h).1]
  case outOfRange.outOfRange n n' => rw [(toDigits_append_inj (by decide) (by decide) h).1]
  -- These two differ only behind the number.
  case outOfRange.notAllocated n n' =>
      exact absurd (toDigits_append_inj (by decide) (by decide) h).2 (by decide)
  case notAllocated.outOfRange n n' =>
      exact absurd (toDigits_append_inj (by decide) (by decide) h).2 (by decide)
  case notAllocated.notAllocated n n' => rw [(toDigits_append_inj (by decide) (by decide) h).1]
  case corrupted.corrupted n n' => rw [toDigits_inj (by decide) h]

end Heap

namespace Record

/-- The first three letters of a text. Only records about one operation have them
    in common. -/
def stem : Record → List Char
  | heapInitialized _ => ['h', 'e', 'a']
  | programInitialized => ['r', 'u', 'n']
  | allocated _ _ | allocationFailed _ _ => ['a', 'l', 'l']
  | released _ _ | releaseIgnored _ => ['r', 'e', 'l']
  | split _ _ _ _ => ['s', 'p', 'l']
  | merged _ _ _ => ['m', 'e', 'r']
  | growthRefused => ['e', 'x', 'p']
  | mallocFailed _ _ => ['m', 'a', 'l']
  | duplicated _ _ => ['d', 'u', 'p']
  | exiting _ => ['e', 'x', 'i']

theorem take_message (r : Record) : r.message.toList.take 3 = r.stem := by
  unfold message
  cases r <;>
    simp only [String.toList_append, toString_text, String.reduceToList, List.cons_append] <;> rfl

/-- Records that have one text are the same record. -/
theorem message_injective : Function.Injective message := by
  intro r s hmessage
  -- Different first letters rule out all but a few pairs, and for these the words
  -- in front of the first number are taken away on both sides.
  have hstem : r.stem = s.stem := by rw [← take_message, hmessage, take_message]
  have h := congrArg String.toList hmessage
  unfold message at h
  cases r <;> cases s <;> first
    | rfl
    | exact absurd hstem (by decide)
    | simp only [String.toList_append, toString_text, toList_toString, toList_hex,
        String.reduceToList, List.append_assoc, List.cons_append, List.nil_append,
        List.cons.injEq, Char.reduceEq, true_and, false_and] at h
  case heapInitialized.heapInitialized n n' =>
      rw [(toDigits_append_inj (by decide) (by decide) h).1]
  case allocated.allocated n p n' p' =>
      rcases toDigits_append_inj (by decide) (by decide) h with ⟨rfl, hrest⟩
      simp only [List.cons.injEq, true_and] at hrest
      have hp : p = p' := congrArg Handle.mk (toDigits_inj (by decide) hrest)
      rw [hp]
  -- An allocation and a failed one have the size in the same place and part
  -- behind it.
  case allocated.allocationFailed n p n' bs =>
      have hrest := (toDigits_append_inj (by decide) (by decide) h).2
      simp only [List.cons.injEq, Char.reduceEq, true_and, false_and] at hrest
  case allocationFailed.allocated n bs n' p =>
      have hrest := (toDigits_append_inj (by decide) (by decide) h).2
      simp only [List.cons.injEq, Char.reduceEq, true_and, false_and] at hrest
  case allocationFailed.allocationFailed n bs n' bs' =>
      rcases toDigits_append_inj (by decide) (by decide) h with ⟨rfl, hrest⟩
      simp only [List.cons.injEq, true_and] at hrest
      rw [BlockInfo.map_injective (String.toList_injective hrest)]
  case released.released p bs p' bs' =>
      rcases toDigits_append_inj (by decide) (by decide) h with ⟨hoffset, hrest⟩
      have hp : p = p' := congrArg Handle.mk hoffset
      simp only [List.cons.injEq, true_and] at hrest
      rw [hp, BlockInfo.map_injective (String.toList_injective hrest)]
  case releaseIgnored.releaseIgnored e e' =>
      rw [Heap.Error.message_injective (String.toList_injective h)]
  case split.split x a b y x' a' b' y' =>
      rcases toDigits_append_inj (by decide) (by decide) h with ⟨hx, hrest⟩
      simp only [List.cons.injEq, true_and] at hrest
      rcases toDigits_append_inj (by decide) (by decide) hrest with ⟨ha, hrest⟩
      simp only [List.cons.injEq, true_and] at hrest
      rcases toDigits_append_inj (by decide) (by decide) hrest with ⟨hb, hrest⟩
      simp only [List.cons.injEq, true_and] at hrest
      rw [hx, ha, hb, toDigits_inj (by decide) hrest]
  case merged.merged y x n y' x' n' =>
      rcases toDigits_append_inj (by decide) (by decide) h with ⟨hy, hrest⟩
      simp only [List.cons.injEq, true_and] at hrest
      rcases toDigits_append_inj (by decide) (by decide) hrest with ⟨hx, hrest⟩
      simp only [List.cons.injEq, true_and] at hrest
      rw [hy, hx, (toDigits_append_inj (by decide) (by decide) hrest).1]
  case mallocFailed.mallocFailed n e n' e' =>
      rcases toDigits_append_inj (by decide) (by decide) h with ⟨rfl, hrest⟩
      simp only [List.cons.injEq, true_and] at hrest
      rw [Heap.Error.message_injective (String.toList_injective hrest)]
  case duplicated.duplicated n p n' p' =>
      rcases toDigits_append_inj (by decide) (by decide) h with ⟨rfl, hrest⟩
      simp only [List.cons.injEq, true_and] at hrest
      have hp : p = p' := congrArg Handle.mk (toDigits_inj (by decide) hrest)
      rw [hp]
  case exiting.exiting i i' => rw [toString_int_inj (List.append_cancel_right h)]

end Record

end Freestanding
