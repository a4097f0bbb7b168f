import Freestanding.Heap.Loops
import Freestanding.Proofs.Heap.Damage
import Freestanding.Proofs.Heap.Effect

/-!
# Reading a Damaged Heap

Everything but an allocation ends and does not fault, whatever is in the region.

What is read off a heap is defined on its list of blocks, and the loops of
`Heap.Loops` come by the same values one block at a time. The two are compared
once, for the loop that goes over the blocks. What it makes of them is written
as a recursion on a list, `overList`, and the loop makes the same of the blocks
of a walk and has a turn for each of them and one more. So a loop over the
blocks is settled by saying what its body makes of a list.

The sums that the bodies make are words, because a walk has fewer blocks than
there are bytes and the size of each block is the word of a field. A walk has a
counter and its links need not lead anywhere, so this is so for every region
and for every first and last offset, also for those that are larger than any
region.

A release is not only a matter of reading. That it does not fault is the fact
about it in `Damage`.

## Main definitions

* `Heap.overList`: What a loop over blocks makes of a list.
* `Heap.InTime`: Ending with a turn for each block there is room for.

## Theorems

* `Heap.endsWithin_overBlocks`: A loop over the blocks is a recursion on them.
* `Heap.inTime_collectLoop`, `Heap.inTime_countLoop`, `Heap.inTime_freeLoop`,
  `Heap.inTime_largestLoop`, `Heap.inTime_mapLoop`, `Heap.inTime_liveLoop`,
  `Heap.inTime_payloadLoop`: The loops over the blocks.
* `Heap.endsWithin_checkLoop`: The loop of the test.
* `Heap.payload?_inTime`, `Heap.check_inTime`: A handle and the test, whether
  they come to a loop or not.
* `Heap.ends_without_fault`: What is read off a heap, and releases, for every
  heap.
-/

namespace Freestanding

namespace Heap

open Change

variable {N : Nat} {α β : Type}

/-- What a loop over blocks makes of the blocks in a list. -/
def overList (step : β → BlockInfo → Checked (Turn β α)) (finish : β → α) :
    β → List BlockInfo → Checked α
  | acc, [] => .ok (finish acc)
  | acc, b :: bs =>
    match step acc b with
    | .error f => .error f
    | .ok (.done a) => .ok a
    | .ok (.again acc) => overList step finish acc bs

theorem overList_of_again {step : β → BlockInfo → Checked (Turn β α)} {finish : β → α}
    {acc acc' : β} {b : BlockInfo} (hstep : step acc b = .ok (.again acc'))
    (bs : List BlockInfo) :
    overList step finish acc (b :: bs) = overList step finish acc' bs := by
  rw [overList, hstep]

theorem overList_of_done {step : β → BlockInfo → Checked (Turn β α)} {finish : β → α}
    {acc : β} {a : α} {b : BlockInfo} (hstep : step acc b = .ok (.done a))
    (bs : List BlockInfo) : overList step finish acc (b :: bs) = .ok a := by
  rw [overList, hstep]

/-- A walk without blocks is over. -/
theorem Cursor.next_of_nil {h : Heap N} {n : Nat} {link : Option Nat}
    (hwalk : h.walk n link = []) : Cursor.next h ⟨link, n⟩ = .ok none := by
  cases link with
  | none => rfl
  | some pos =>
      simp only [Cursor.next, load_eq, Checked.ok_bind]
      cases hb : h.header? pos with
      | none => rfl
      | some b =>
          cases n with
          | zero => rfl
          | succ n =>
              rw [walk, hb] at hwalk
              cases hwalk

/-- A walk with blocks reports the first one and goes on with the others. -/
theorem Cursor.next_of_cons {h : Heap N} {n : Nat} {link : Option Nat} {b : BlockInfo}
    {bs : List BlockInfo} (hwalk : h.walk n link = b :: bs) :
    ∃ m onward, n = m + 1 ∧ h.walk m onward = bs ∧
      Cursor.next h ⟨link, n⟩ = .ok (some (b, ⟨onward, m⟩)) := by
  cases n with
  | zero => cases hwalk
  | succ n =>
      cases link with
      | none => cases hwalk
      | some pos =>
          rw [walk] at hwalk
          cases hc : h.header? pos with
          | none =>
              rw [hc] at hwalk
              cases hwalk
          | some c =>
              rw [hc] at hwalk
              cases hwalk
              refine ⟨n, c.next, rfl, rfl, ?_⟩
              simp only [Cursor.next, load_eq, hc, Checked.ok_bind]
              rfl

/-- A loop over the blocks of a walk is a recursion on the list of them. -/
theorem endsWithin_overBlocks {h : Heap N} {step : β → BlockInfo → Checked (Turn β α)}
    {finish : β → α} {a : α} {bs : List BlockInfo} {n : Nat} {link : Option Nat} {acc : β}
    (hwalk : h.walk n link = bs) (ha : overList step finish acc bs = .ok a) :
    (h.overBlocks step finish).EndsWithin (bs.length + 1) (⟨link, n⟩, acc) a := by
  induction bs generalizing n link acc with
  | nil =>
      cases ha
      apply Loop.EndsWithin.done
      rw [overBlocks, Cursor.next_of_nil hwalk]
      rfl
  | cons b bs ih =>
      rcases Cursor.next_of_cons hwalk with ⟨m, onward, -, hrest, hnext⟩
      rw [overList] at ha
      -- The body ends the loop at this block or goes on to the rest of the walk.
      rcases hstep : step acc b with f | acc' | a'
      · rw [hstep] at ha
        cases ha
      · rw [hstep] at ha
        refine Loop.EndsWithin.again ?_ (ih hrest ha)
        rw [overBlocks, hnext, Checked.ok_bind]
        dsimp only
        rw [hstep]
        rfl
      · rw [hstep] at ha
        cases ha
        apply Loop.EndsWithin.done
        rw [overBlocks, hnext, Checked.ok_bind]
        dsimp only
        rw [hstep]
        rfl

/-- A loop over the blocks of a heap ends with a turn for every block that the
    region has room for and one more, or with fewer turns. -/
def InTime (h : Heap N) (l : Loop (Cursor × β) α) (start : β) (a : α) : Prop :=
  l.EndsWithin (N / Header.byteSize + 1) (h.cursor, start) a

theorem inTime_of_overList {h : Heap N} {step : β → BlockInfo → Checked (Turn β α)}
    {finish : β → α} {a : α} {start : β} (ha : overList step finish start h.blocks = .ok a) :
    h.InTime (h.overBlocks step finish) start a := by
  have hlength := h.length_blocks_le
  have hwalk : h.walk (visits N) (some h.first) = h.blocks := rfl
  rcases endsWithin_overBlocks hwalk ha with ⟨n, hn, hends⟩
  exact ⟨n, by omega, hends⟩

/-- The sizes on a walk are words of fields. -/
theorem size_lt_of_mem_walk {h : Heap N} {n : Nat} {link : Option Nat} {b : BlockInfo}
    (hb : b ∈ h.walk n link) : b.size < Header.wordLimit := by
  induction n generalizing link with
  | zero => cases hb
  | succ n ih =>
      cases link with
      | none => cases hb
      | some pos =>
          rw [walk] at hb
          cases hc : h.header? pos with
          | none =>
              rw [hc] at hb
              cases hb
          | some c =>
              rw [hc] at hb
              rcases List.mem_cons.mp hb with rfl | hb
              · exact (Header.fits_of_read? hc).size
              · exact ih hb

/-- All blocks of a heap together are shorter than the largest word. -/
theorem sizes_lt_limit (h : Heap N) : h.blocks.length * Header.wordLimit < Word.limit := by
  have hsmall := h.lt_wordLimit
  have hlength : h.blocks.length ≤ N :=
    Nat.le_trans h.length_blocks_le (Nat.div_le_self N Header.byteSize)
  have hlimit : Header.wordLimit * Header.wordLimit = Word.limit := by decide
  rw [← hlimit]
  exact Nat.mul_lt_mul_of_pos_right (Nat.lt_of_le_of_lt hlength hsmall) (by decide)

theorem length_blocks_lt_limit (h : Heap N) : h.blocks.length < Word.limit :=
  Nat.lt_of_le_of_lt (Nat.le_mul_of_pos_right _ (by decide)) h.sizes_lt_limit

/-- A body that goes on at each block folds the list. What it needs for going
    on is `P`, which may depend on the number of blocks to come. -/
theorem overList_eq_foldl {step : β → BlockInfo → Checked (Turn β α)} {finish : β → α}
    {f : β → BlockInfo → β} {P : β → Nat → Prop}
    (hstep : ∀ acc b k, P acc (k + 1) → b.size < Header.wordLimit →
      step acc b = .ok (.again (f acc b)) ∧ P (f acc b) k)
    {bs : List BlockInfo} (hbs : ∀ b ∈ bs, b.size < Header.wordLimit) {acc : β}
    (hacc : P acc bs.length) :
    overList step finish acc bs = .ok (finish (bs.foldl f acc)) := by
  induction bs generalizing acc with
  | nil => rfl
  | cons b bs ih =>
      rcases hstep acc b bs.length hacc (hbs b List.mem_cons_self) with ⟨hagain, hnext⟩
      rw [overList_of_again hagain, List.foldl_cons]
      exact ih (fun c hc => hbs c (List.mem_cons_of_mem b hc)) hnext

/-- A loop whose body goes on at each block folds the blocks. -/
theorem inTime_of_foldl {h : Heap N} {step : β → BlockInfo → Checked (Turn β α)}
    {finish : β → α} {f : β → BlockInfo → β} (P : β → Nat → Prop)
    (hstep : ∀ acc b k, P acc (k + 1) → b.size < Header.wordLimit →
      step acc b = .ok (.again (f acc b)) ∧ P (f acc b) k)
    {start : β} (hstart : P start h.blocks.length) :
    h.InTime (h.overBlocks step finish) start (finish (h.blocks.foldl f start)) :=
  inTime_of_overList (overList_eq_foldl hstep (fun _ hb => size_lt_of_mem_walk hb) hstart)

/-- Keeping the blocks of a walk keeps all of them. -/
theorem inTime_collectLoop (h : Heap N) : h.InTime h.collectLoop [] h.blocks := by
  have hfold : ∀ bs acc : List BlockInfo, bs.foldl (fun bs b => bs ++ [b]) acc = acc ++ bs := by
    intro bs
    induction bs with
    | nil => exact fun acc => (List.append_nil acc).symm
    | cons b bs ih =>
        intro acc
        rw [List.foldl_cons, ih, List.append_assoc]
        rfl
  have hloop : h.InTime h.collectLoop [] (id (h.blocks.foldl (fun bs b => bs ++ [b]) [])) :=
    inTime_of_foldl (fun _ _ => True) (fun _ _ _ _ _ => ⟨rfl, trivial⟩) trivial
  rwa [hfold] at hloop

/-- The number of blocks is a word at every block. -/
theorem inTime_countLoop (h : Heap N) : h.InTime h.countLoop 0 h.blockCount := by
  have hloop : h.InTime h.countLoop 0 (id (h.blocks.foldl (fun n _ => n + 1) 0)) := by
    refine inTime_of_foldl (fun n k => n + k < Word.limit) (fun n b k hn _ => ?_) ?_
    · have hadd : Word.add n 1 = .ok (n + 1) := Word.add_eq_ok (by omega)
      exact ⟨by rw [hadd]; rfl, by omega⟩
    · rw [Nat.zero_add]
      exact h.length_blocks_lt_limit
  rw [List.foldl_add_const, Nat.zero_add, Nat.one_mul] at hloop
  exact hloop

/-- The sum of the sizes of the free blocks is a word at every block. -/
theorem inTime_freeLoop (h : Heap N) : h.InTime h.freeLoop 0 h.freeBytes := by
  have hsum : h.freeBytes =
      h.blocks.foldl (fun n b => if (!b.used) = true then n + b.size else n) 0 := by
    rw [freeBytes, List.foldr_eq_foldl, freeSizes, List.foldl_map, List.foldl_filter]
  rw [hsum]
  refine inTime_of_foldl (fun n k => n + k * Header.wordLimit < Word.limit)
    (fun n b k hn hb => ?_) ?_
  · have hmul : (k + 1) * Header.wordLimit = k * Header.wordLimit + Header.wordLimit :=
      Nat.succ_mul _ _
    cases hused : b.used with
    | true => exact ⟨by simp, by simp; omega⟩
    | false =>
        have hadd : Word.add n b.size = .ok (n + b.size) := Word.add_eq_ok (by omega)
        exact ⟨by simp [hadd], by simp; omega⟩
  · rw [Nat.zero_add]
    exact h.sizes_lt_limit

theorem inTime_largestLoop (h : Heap N) : h.InTime h.largestLoop 0 h.largestFree := by
  have hmax : h.largestFree =
      h.blocks.foldl (fun n b => if (!b.used) = true then max n b.size else n) 0 := by
    rw [largestFree, freeSizes, List.foldl_map, List.foldl_filter]
  rw [hmax]
  refine inTime_of_foldl (fun _ _ => True) (fun n b _ _ _ => ⟨?_, trivial⟩) trivial
  cases b.used <;> rfl

/-- Writing the blocks of a walk writes the map of the heap. -/
theorem inTime_mapLoop (h : Heap N) : h.InTime h.mapLoop (0, "") h.map := by
  have hjoin : ∀ (bs : List BlockInfo) (n : Nat) (s : String),
      (bs.foldl (fun s b => (s.1 + 1, (if 0 < s.1 then s.2 ++ " " else s.2) ++ b.text))
        (n + 1, s)).2 = " ".intercalate (s :: bs.map BlockInfo.text) := by
    intro bs
    induction bs with
    | nil => exact fun n s => String.intercalate_singleton.symm
    | cons b bs ih =>
        intro n s
        rw [List.foldl_cons, ih, List.map_cons, String.intercalate_cons_cons,
          if_pos (Nat.succ_pos n), String.intercalate_cons_append]
  have hmap : h.map = (h.blocks.foldl (fun s b =>
      (s.1 + 1, (if 0 < s.1 then s.2 ++ " " else s.2) ++ b.text)) (0, "")).2 := by
    rw [map, BlockInfo.map]
    cases h.blocks with
    | nil => rfl
    | cons b bs =>
        rw [List.foldl_cons, hjoin, if_neg (Nat.lt_irrefl 0), String.empty_append]
        rfl
  rw [hmap]
  refine inTime_of_foldl (fun (s : Nat × String) k => s.1 + k < Word.limit)
    (fun s b k hs _ => ?_) ?_
  · have hadd : Word.add s.1 1 = .ok (s.1 + 1) := Word.add_eq_ok (by omega)
    exact ⟨by rw [hadd]; rfl, by dsimp only; omega⟩
  · rw [Nat.zero_add]
    exact h.length_blocks_lt_limit

/-- Looking for the block at an offset ends at the first block that is not in
    front of it, or with the walk. -/
theorem inTime_seekLoop (h : Heap N) (pos : Nat) {found : Checked (Option α)} {v : Option α}
    (hfound : found = .ok v) :
    h.InTime (h.seekLoop pos found) () (do
      let b ← h.blocks.find? fun b => pos ≤ b.offset
      if b.offset = pos ∧ b.used then v else none) := by
  apply inTime_of_overList
  subst hfound
  induction h.blocks with
  | nil => rfl
  | cons b bs ih =>
      by_cases hpos : pos ≤ b.offset
      · rw [List.find?_cons_of_pos (by simpa using hpos)]
        show _ = Except.ok (if b.offset = pos ∧ b.used = true then v else none)
        by_cases hlive : b.offset = pos ∧ b.used = true
        · rw [if_pos hlive]
          exact overList_of_done ((if_pos hpos).trans (if_pos hlive)) bs
        · rw [if_neg hlive]
          exact overList_of_done ((if_pos hpos).trans (if_neg hlive)) bs
      · rw [List.find?_cons_of_neg (by simpa using hpos), overList_of_again (if_neg hpos)]
        exact ih

theorem inTime_liveLoop (h : Heap N) (pos : Nat) : h.InTime (h.liveLoop pos) () (h.live? pos) :=
  h.inTime_seekLoop pos (h.load_eq pos)

/-- A handle that has a header has an offset not far behind the region, so the
    end of its payload is a word. -/
theorem loadPayload_eq (h : Heap N) {p : Handle} {pos : Nat} (hp : p.headerIn? N = some pos) :
    h.loadPayload p pos = .ok ((h.header? pos).bind fun b => h.region.slice? p.offset b.size) := by
  have hlimit : 2 * Header.wordLimit + Header.byteSize < Word.limit := by decide
  have hsmall := h.lt_wordLimit
  have hoffset : p.offset < N + Header.byteSize := by
    rw [Handle.headerIn?] at hp
    split at hp
    · omega
    · cases hp
  rw [loadPayload, load_eq, Checked.ok_bind]
  cases hb : h.header? pos with
  | none => rfl
  | some b =>
      have hfits := (Header.fits_of_read? hb).size
      have hend : p.offset + b.size < Word.limit := by omega
      dsimp only
      rw [if_pos hend]
      rfl

theorem inTime_payloadLoop (h : Heap N) {p : Handle} {pos : Nat}
    (hp : p.headerIn? N = some pos) : h.InTime (h.payloadLoop p pos) () (h.payload? p) := by
  have hloop := h.inTime_seekLoop pos (h.loadPayload_eq hp)
  -- `payload?` finds the block first and then looks at its header.
  have hvalue : h.payload? p = (do
      let b ← h.blocks.find? fun b => pos ≤ b.offset
      if b.offset = pos ∧ b.used then
        (h.header? pos).bind fun b => h.region.slice? p.offset b.size
      else none) := by
    rw [payload?, allocation?, hp]
    show ((h.live? pos).bind _) = _
    rw [live?]
    cases h.blocks.find? fun b => pos ≤ b.offset with
    | none => rfl
    | some b =>
        show ((if _ then _ else _ : Option Header).bind _) = (if _ then _ else _ : Option Bytes)
        split <;> rfl
  rw [hvalue]
  exact hloop

/-- A turn of the test at a header in the right place. -/
theorem checkLoop_of_header {h : Heap N} {pos : Nat} {b : Header} (hb : h.header? pos = some b)
    (n : Nat) (before : Option (Nat × Bool)) :
    h.checkLoop ⟨some pos, pos, before, n + 1⟩ =
      if b.previous = before.map (·.1) ∧ (b.used ∨ ∀ c ∈ before, c.2) ∧
          (b.next = none → pos = h.last) then
        .ok (.again ⟨b.next, pos + (Header.byteSize + b.size), some (pos, b.used), n⟩)
      else .ok (.done (.error (.corrupted pos))) := by
  have hlimit : 2 * Header.wordLimit + Header.byteSize < Word.limit := by decide
  have hsmall := h.lt_wordLimit
  have hN := Header.read?_eq_some_bounds hb
  have hfits := (Header.fits_of_read? hb).size
  have hspan : Word.add Header.byteSize b.size = .ok (Header.byteSize + b.size) :=
    Word.add_eq_ok (by omega)
  have hend : pos + (Header.byteSize + b.size) < Word.limit := by omega
  have hleft : Word.sub (n + 1) 1 = .ok n := Word.sub_eq_ok (by omega)
  have hturn : ¬ (pos ≠ pos ∨ n + 1 = 0) := by simp
  simp only [checkLoop, if_neg hturn, hleft, load_eq, hb, hspan, if_pos hend, Checked.ok_bind,
    Checked.pure_eq_ok]
  have hfree : ((∃ c ∈ before, c.2 = false) ∧ b.used = false) ↔
      ¬ (b.used ∨ ∀ c ∈ before, c.2) := by
    push Not
    simp only [Bool.not_eq_true, and_comm]
  by_cases hback : b.previous = before.map (·.1)
  · by_cases hseparated : b.used ∨ ∀ c ∈ before, c.2
    · rw [if_neg (not_not.mpr hback), if_neg (mt hfree.mp (not_not.mpr hseparated))]
      by_cases hlast : b.next = none → pos = h.last
      · rw [if_neg fun hc => hc.2 (hlast hc.1), if_pos ⟨hback, hseparated, hlast⟩]
      · rw [if_pos (Classical.not_imp.mp hlast), if_neg fun hall => hlast hall.2.2]
    · rw [if_neg (not_not.mpr hback), if_pos (hfree.mpr hseparated),
        if_neg fun hall => hseparated hall.2.1]
  · rw [if_pos hback, if_neg fun hall => hback hall.1]

/-- The test looks at one block in each turn and has as many turns left as it
    may meet blocks, and one more. -/
theorem endsWithin_checkLoop (h : Heap N) (n : Nat) (link : Option Nat) (expected : Nat)
    (before : Option (Nat × Bool)) :
    h.checkLoop.EndsWithin (n + 1) ⟨link, expected, before, n⟩
      (h.checkFrom n link expected before) := by
  -- The induction is on the blocks that may still be met, which is the bound of
  -- the recursion and the counter of the loop.
  induction n generalizing link expected before with
  | zero =>
      apply Loop.EndsWithin.done
      cases link with
      | none => rfl
      | some pos => exact if_pos (Or.inr rfl)
  | succ n ih =>
      cases link with
      | none =>
          apply Loop.EndsWithin.done
          rw [checkFrom]
          rfl
      | some pos =>
          rw [checkFrom]
          by_cases hplace : pos = expected
          · subst hplace
            cases hb : h.header? pos with
            | none =>
                have hturn : ¬ (pos ≠ pos ∨ n + 1 = 0) := by simp
                apply Loop.EndsWithin.done
                simp only [checkLoop, if_neg hturn, Word.sub_eq_ok (Nat.le_add_left 1 n), load_eq,
                  hb, Checked.ok_bind, Checked.pure_eq_ok]
            | some b =>
                have hturn := checkLoop_of_header hb n before
                dsimp only
                -- The loop asks for the parts of the condition one by one.
                split
                · rename_i hall
                  rw [if_pos hall.2] at hturn
                  exact Loop.EndsWithin.again hturn (ih _ _ _)
                · rename_i hall
                  rw [if_neg fun hc => hall ⟨rfl, hc⟩] at hturn
                  exact Loop.EndsWithin.done hturn
          · apply Loop.EndsWithin.done
            have hlost : h.checkLoop ⟨some pos, expected, before, n + 1⟩ =
                .ok (.done (.error (.corrupted pos))) := if_pos (Or.inl hplace)
            rw [hlost]
            cases h.header? pos with
            | none => rfl
            | some b =>
                dsimp only
                rw [if_neg fun hall => hplace hall.1]

/-- A handle without a header in the region has no payload, and the payload of
    any other one is looked for. -/
theorem payload?_inTime (h : Heap N) (p : Handle) :
    p.headerIn? N = none ∧ h.payload? p = none ∨
      ∃ pos, p.headerIn? N = some pos ∧ h.InTime (h.payloadLoop p pos) () (h.payload? p) := by
  cases hp : p.headerIn? N with
  | none =>
      refine Or.inl ⟨rfl, ?_⟩
      rw [payload?, allocation?, hp]
      rfl
  | some pos => exact Or.inr ⟨pos, rfl, h.inTime_payloadLoop hp⟩

/-- A list that does not start at the front is not looked at by the test. -/
theorem check_inTime (h : Heap N) :
    h.first ≠ 0 ∧ h.check = .error (.corrupted h.first) ∨
      h.checkLoop.EndsWithin (N / Header.byteSize + 1)
        ⟨some h.first, 0, none, N / Header.byteSize⟩ h.check := by
  by_cases hfirst : h.first = 0
  · rw [check, if_pos hfirst]
    exact Or.inr (h.endsWithin_checkLoop _ _ _ _)
  · exact Or.inl ⟨hfirst, if_neg hfirst⟩

/-- A payload lies in the region. -/
theorem payload?_bounds {h : Heap N} {p : Handle} {s : Bytes} (hs : h.payload? p = some s) :
    p.offset + s.length ≤ N := by
  rcases Option.bind_eq_some_iff.mp hs with ⟨b, -, hslice⟩
  rw [Region.length_of_slice? hslice]
  exact (Region.slice?_eq_some_iff.mp hslice).1

/-- A change that does not fault does not fault on a payload. -/
theorem exists_result_onPayload (h : Heap N) (p : Handle) {change : Bytes → Checked (α × Bytes)}
    (hchange : ∀ s, ∃ r, change s = .ok r) : ∃ a, (onPayload p change h).result = .ok a := by
  cases hp : h.payload? p with
  | none =>
      rw [onPayload_of_none change hp]
      exact ⟨_, rfl⟩
  | some s =>
      rcases hchange s with ⟨⟨a, u⟩, hc⟩
      rw [onPayload_of_ok hp hc]
      exact ⟨_, rfl⟩

/-- On any heap, whatever its region holds and wherever its list is said to
    start and to end, nothing but an allocation faults or goes on forever.
    Releases are refused at most. Every loop that reads the blocks ends, and it
    has at most one turn more than there is room for headers, even if the links
    run in circles. -/
theorem ends_without_fault (h : Heap N) :
    ((∀ p f, (tryRelease p h).result ≠ .error (.fault f)) ∧ ∀ p, (release p h).result = .ok ()) ∧
      (∀ pos, h.load pos = .ok (h.header? pos) ∧ h.InTime (h.liveLoop pos) () (h.live? pos)) ∧
      (∀ p, (p.headerIn? N = none ∧ h.payload? p = none) ∨
        ∃ pos, p.headerIn? N = some pos ∧ h.InTime (h.payloadLoop p pos) () (h.payload? p)) ∧
      (∀ p s, h.payload? p = some s → p.offset + s.length ≤ N) ∧
      (∀ (γ : Type) p (change : Bytes → Checked (γ × Bytes)), (∀ s, ∃ r, change s = .ok r) →
        ∃ a, (onPayload p change h).result = .ok a) ∧
      ((h.first ≠ 0 ∧ h.check = .error (.corrupted h.first)) ∨
        h.checkLoop.EndsWithin (N / Header.byteSize + 1)
          ⟨some h.first, 0, none, N / Header.byteSize⟩ h.check) ∧
      (h.InTime h.collectLoop [] h.blocks ∧ h.blocks.length ≤ N / Header.byteSize) ∧
      h.InTime h.countLoop 0 h.blockCount ∧ h.InTime h.freeLoop 0 h.freeBytes ∧
      h.InTime h.largestLoop 0 h.largestFree ∧ h.InTime h.mapLoop (0, "") h.map := by
  have hrelease : ∀ p f, (tryRelease p h).result ≠ .error (.fault f) := by
    intro p f hf
    rcases tryRelease_cases h p with he | he | he | ⟨pos, he⟩ <;> rw [he] at hf <;> cases hf
  have hlive : ∀ pos, h.load pos = .ok (h.header? pos) ∧
      h.InTime (h.liveLoop pos) () (h.live? pos) :=
    fun pos => ⟨h.load_eq pos, h.inTime_liveLoop pos⟩
  have hchange : ∀ (γ : Type) p (change : Bytes → Checked (γ × Bytes)),
      (∀ s, ∃ r, change s = .ok r) → ∃ a, (onPayload p change h).result = .ok a :=
    fun γ p change hc => h.exists_result_onPayload p hc
  have hblocks : h.InTime h.collectLoop [] h.blocks ∧ h.blocks.length ≤ N / Header.byteSize :=
    ⟨h.inTime_collectLoop, h.length_blocks_le⟩
  exact ⟨⟨hrelease, h.result_release⟩, hlive, h.payload?_inTime, fun p s hs => payload?_bounds hs,
    hchange, h.check_inTime, hblocks, h.inTime_countLoop, h.inTime_freeLoop, h.inTime_largestLoop,
    h.inTime_mapLoop⟩

/-- A block that is linked to itself in both directions is reported as often as
    there is room for a header, and it is released all the same. The list is
    said to end at the largest word. -/
theorem circle_ends :
    ∃ h : Heap 64, h.last = Word.limit - 1 ∧ h.header? 0 = some ⟨true, 8, some 0, some 0⟩ ∧
      h.blocks = List.replicate 4 ⟨0, true, 8⟩ ∧ h.InTime h.collectLoop [] h.blocks ∧
      (h.payload? ⟨16⟩).isSome ∧ (release ⟨16⟩ h).result = .ok () := by
  let h : Heap 64 := { (Heap.initial (N := 64) (by decide) (by decide)).setHeader 0
    ⟨true, 8, some 0, some 0⟩ with last := Word.limit - 1 }
  rcases ends_without_fault h with ⟨⟨-, hrelease⟩, -, -, -, -, -, ⟨hblocks, -⟩, -⟩
  exact ⟨h, rfl, by decide +kernel, by decide +kernel, hblocks, by decide +kernel, hrelease _⟩

end Heap

end Freestanding
