import Freestanding.Log.Replay
import Freestanding.Proofs.Heap.Effect
import Freestanding.Proofs.Log

/-!
# Logs That Can Be Replayed

The records of an operation tell what it did to the blocks.

An operation writes its records while it is at work. A cut is reported before
the block that was cut is marked, and a join on the way from one neighbour to
the other, so the numbers in these records are not read off a heap. They are
those of headers that the operation keeps at hand, and what they say has to be
what is in the region when it is done.

On a heap that holds a layout, all of them are numbers of the layout. A cut is
at the segment that was found and a join is of segments that are next to each
other, in the layout that the step before has left. So replaying a record on
the blocks of a layout finds the block that it names, in the state that it
asks for, and gives the blocks of the next layout. `atBlock_layout` is the one
place where a block is looked for; everything else is put together from it in
the order in which the operation is.

What is printed are the texts of the records, and the blocks in a record are
printed as a map. Since texts and maps can be read, it makes no difference
whether the records are replayed or what somebody has read in their lines
(`Replay.tells_of_log`).

## Theorems

* `Replay.atBlock_layout`: The block that a record names.
* `Replay.cut_layout`, `Replay.mark_layout`, `Replay.join_layout`: A record
  replayed on a layout.
* `Replay.log_cutLog`, `Replay.log_freeLog`: An operation replayed on a layout.
* `Replay.tells_of_log`: The lines of an operation that can be replayed.
* `Heap.log_replays`: What an operation on a heap in order reports.
-/

namespace Freestanding

namespace Replay

open Layout

theorem atBlock_blocksFrom (pos : Nat) (f : Focus)
    (change : BlockInfo → List BlockInfo → Option (List BlockInfo)) :
    atBlock (pos + f.before.span) change (blocksFrom pos f.layout) =
      (change ⟨pos + f.before.span, f.here.used, f.here.size⟩
        (blocksFrom (pos + f.before.span + f.here.span) f.after)).map
          (blocksFrom pos f.before ++ ·) := by
  rcases f with ⟨l, s, m⟩
  induction l generalizing pos with
  | nil =>
      show atBlock pos change (_ :: _) = _
      rw [atBlock, if_pos rfl]
      exact Option.map_id'.symm
  | cons t l ih =>
      have hspan := byteSize_le_span t
      have hsize := Header.byteSize_pos
      have hne : pos ≠ pos + span (t :: l) := by
        rw [span_cons]
        omega
      have hrest := ih (pos + t.span)
      dsimp only [Focus.layout] at hrest ⊢
      rw [Nat.add_assoc pos, ← span_cons] at hrest
      rw [List.cons_append, blocksFrom, atBlock, if_neg hne, hrest, Option.map_map]
      rfl

/-- A block is found at the offset of its segment, and what is before it stays
    as it is. -/
theorem atBlock_layout (f : Focus)
    (change : BlockInfo → List BlockInfo → Option (List BlockInfo)) :
    atBlock f.before.span change f.layout.blocks =
      (change ⟨f.before.span, f.here.used, f.here.size⟩
        (blocksFrom (f.before.span + f.here.span) f.after)).map (f.before.blocks ++ ·) := by
  have hfound := atBlock_blocksFrom 0 f change
  rwa [Nat.zero_add] at hfound

/-- Cutting the block of a free segment cuts the segment. -/
theorem cut_layout {f : Focus} {size : Nat} (hfree : f.here.used = false)
    (hsplits : size + 2 * Header.byteSize < f.here.size) :
    cut f.before.span size (f.here.size - size - Header.byteSize)
        (f.before.span + Header.byteSize + size) f.layout.blocks =
      some (Layout.blocks (f.before ++
        ⟨false, size⟩ :: ⟨false, f.here.size - size - Header.byteSize⟩ :: f.after)) := by
  have hsize : f.here.size = size + (f.here.size - size - Header.byteSize) + Header.byteSize := by
    omega
  rw [cut, atBlock_layout, if_pos ⟨hfree, hsize, rfl⟩, Option.map_some, blocks_append]
  -- The rest starts behind the front and stops where the segment did.
  have hfront : f.before.span + Segment.span ⟨false, size⟩ =
      f.before.span + Header.byteSize + size := by
    rw [Segment.span, Nat.add_assoc]
  have hstop : f.before.span + Header.byteSize + size +
      Segment.span ⟨false, f.here.size - size - Header.byteSize⟩ =
        f.before.span + f.here.span := by
    simp only [Segment.span]
    omega
  rw [blocksFrom, blocksFrom, hfront, hstop]

/-- Marking the block of a segment changes its use. -/
theorem mark_layout {f : Focus} {used : Bool} (h : f.here.used = !used) :
    mark used f.handle f.layout.blocks =
      some (Layout.blocks (f.before ++ ⟨used, f.here.size⟩ :: f.after)) := by
  have hpos : f.handle.offset - Header.byteSize = f.before.span := Nat.add_sub_cancel _ _
  have hle : Header.byteSize ≤ f.handle.offset := Nat.le_add_left _ _
  rw [mark, if_pos hle, hpos, atBlock_layout, if_pos h, Option.map_some, blocks_append]
  rfl

/-- Joining the blocks of two free segments joins the segments. -/
theorem join_layout (l m : Layout) {s t : Segment} (hs : s.used = false) (ht : t.used = false) :
    join (l.span + s.span) l.span (Layout.join s t).size (Layout.blocks (l ++ s :: t :: m)) =
      some (Layout.blocks (l ++ Layout.join s t :: m)) := by
  have hsize : (Layout.join s t).size = s.size + t.size + Header.byteSize := by
    simp only [Layout.join]
    omega
  have hfound := atBlock_layout ⟨l, s, t :: m⟩
  dsimp only [Focus.layout] at hfound
  rw [join, hfound, blocksFrom]
  dsimp only
  rw [if_pos ⟨hs, ht, rfl, hsize⟩, Option.map_some, blocks_append, blocksFrom, span_join,
    ← Nat.add_assoc]
  rfl

theorem steps_append (rs rs' : List Record) (bs : List BlockInfo) :
    steps (rs ++ rs') bs = (steps rs bs).bind (steps rs') := by
  induction rs generalizing bs with
  | nil => rfl
  | cons r rs ih =>
      rw [List.cons_append, steps, steps, Option.bind_assoc]
      exact congrArg _ (funext ih)

/-- The join with what is behind a segment, as it was reported. -/
theorem steps_joinAfterLog (l m : Layout) {s : Segment} (hs : s.used = false) :
    steps (joinAfterLog l.span s m) (Layout.blocks (l ++ s :: m)) =
      some (Layout.blocks (l ++ joinAfter s m)) := by
  cases m with
  | nil => rfl
  | cons t m =>
      rw [joinAfterLog, joinAfter]
      by_cases ht : t.used = true
      · rw [if_pos ht, if_pos ht]
        rfl
      · rw [if_neg ht, if_neg ht, steps, step, join_layout l m hs (Bool.eq_false_iff.mpr ht)]
        rfl

/-- The join to what is before a place, as it was reported. -/
theorem steps_joinBeforeLog (l m : Layout) :
    steps (joinBeforeLog l m) (Layout.blocks (l ++ m)) =
      some (Layout.blocks (joinBefore l m)) := by
  rcases List.eq_nil_or_concat' l with rfl | ⟨before, r, rfl⟩
  · rfl
  · rw [joinBeforeLog, joinBefore, List.getLast?_concat, List.dropLast_concat]
    dsimp only
    by_cases hr : r.used = true
    · rw [if_pos hr, if_pos hr]
      rfl
    · -- The segment before is the first one of the two that are joined.
      rw [if_neg hr, if_neg hr, List.append_assoc, List.singleton_append]
      exact steps_joinAfterLog before m (Bool.eq_false_iff.mpr hr)

/-- The joins of a release, as they were reported. -/
theorem steps_freeLog (f : Focus) :
    steps f.freeLog (Layout.blocks (f.before ++ ⟨false, f.here.size⟩ :: f.after)) =
      some f.free.blocks := by
  rw [Focus.freeLog, Focus.free, steps_append, steps_joinAfterLog f.before f.after rfl,
    Option.bind_some, steps_joinBeforeLog]

/-- Replaying an allocation hands out the segment that was found. -/
theorem log_cutLog {f : Focus} (size : Nat) (hfree : f.here.used = false) :
    log (cutLog f.before.span f.here size ++ [.allocated size f.handle]) f.layout.blocks =
      some (Layout.blocks (f.before ++ Layout.cut f.here size ++ f.after)) := by
  rw [log, List.getLast?_concat]
  dsimp only
  rw [List.dropLast_concat, cutLog, Layout.cut, List.append_assoc]
  by_cases hsplits : size + 2 * Header.byteSize < f.here.size
  · rw [if_pos hsplits, if_pos hsplits, steps, step, cut_layout hfree hsplits]
    -- The front of the segment is at the same place, and it is free until now.
    exact mark_layout (f := ⟨f.before, ⟨false, size⟩, _⟩) rfl
  · rw [if_neg hsplits, if_neg hsplits]
    exact mark_layout hfree

/-- Replaying a release frees the segment and joins it with its neighbours. -/
theorem log_freeLog {f : Focus} (bs : List BlockInfo) (hused : f.here.used = true) :
    log (f.freeLog ++ [.released f.handle bs]) f.layout.blocks = some f.free.blocks := by
  have hmark : mark false f.handle f.layout.blocks =
      some (Layout.blocks (f.before ++ ⟨false, f.here.size⟩ :: f.after)) := mark_layout hused
  rw [log, List.getLast?_concat]
  dsimp only
  rw [List.dropLast_concat, hmark]
  exact steps_freeLog f

/-- Records that replay to some blocks tell them, because there is one way to read
    what they print. -/
theorem tells_of_log {records : List Record} {before after : List BlockInfo}
    (h : log records before = some after) : Tells records before after := by
  intro rs bs hrs hbs
  have hrecords : rs = records := List.map_injective_iff.mpr Record.message_injective hrs
  rw [hrecords, BlockInfo.map_injective hbs, h]

end Replay

namespace Layout

/-- An allocation reports at most one cut. -/
theorem cutLog_cuts (pos : Nat) (s : Segment) (size : Nat) :
    (cutLog pos s size).length ≤ 1 ∧
      ∀ r ∈ cutLog pos s size, ∃ x a b y, r = .split x a b y := by
  unfold cutLog
  split
  · exact ⟨Nat.le_refl 1, fun r hr => ⟨_, _, _, _, List.mem_singleton.mp hr⟩⟩
  · exact ⟨Nat.zero_le 1, fun r hr => by cases hr⟩

theorem joinAfterLog_joins (pos : Nat) (s : Segment) (l : Layout) :
    (joinAfterLog pos s l).length ≤ 1 ∧
      ∀ r ∈ joinAfterLog pos s l, ∃ y x n, r = .merged y x n := by
  unfold joinAfterLog
  split
  · exact ⟨Nat.zero_le 1, fun r hr => by cases hr⟩
  · split
    · exact ⟨Nat.zero_le 1, fun r hr => by cases hr⟩
    · exact ⟨Nat.le_refl 1, fun r hr => ⟨_, _, _, List.mem_singleton.mp hr⟩⟩

theorem joinBeforeLog_joins (l m : Layout) :
    (joinBeforeLog l m).length ≤ 1 ∧
      ∀ r ∈ joinBeforeLog l m, ∃ y x n, r = .merged y x n := by
  unfold joinBeforeLog
  split
  · exact ⟨Nat.zero_le 1, fun r hr => by cases hr⟩
  · split
    · exact ⟨Nat.zero_le 1, fun r hr => by cases hr⟩
    · exact joinAfterLog_joins _ _ _

/-- A release reports at most two joins. -/
theorem freeLog_joins (f : Focus) :
    f.freeLog.length ≤ 2 ∧ ∀ r ∈ f.freeLog, ∃ y x n, r = .merged y x n := by
  rcases joinAfterLog_joins f.before.span ⟨false, f.here.size⟩ f.after with ⟨hafter, hjoins⟩
  rcases joinBeforeLog_joins f.before (joinAfter ⟨false, f.here.size⟩ f.after) with
    ⟨hbefore, hjoins'⟩
  constructor
  · rw [Focus.freeLog, List.length_append]
    omega
  · intro r hr
    rcases List.mem_append.mp hr with hr | hr
    · exact hjoins r hr
    · exact hjoins' r hr

end Layout

namespace Heap

open Layout

variable {N : Nat}

/-- What an operation on a heap in order reports is what it does. An allocation
    that succeeds reports a cut at most, and then that it is one. One that
    fails reports that the region does not grow, and then the blocks, which are
    as they were, like the rest of the heap. A release that succeeds reports
    two joins at most, and then the blocks as it leaves them; and it does so
    whether or not wrong handles are ignored. One that is refused reports
    nothing, or a single warning if they are. All of this is said in words, with
    offsets in base sixteen and with a map where blocks are shown, and no other
    blocks have the same map. And whatever the outcome is, the words tell how the
    blocks before have become the blocks after. -/
theorem log_replays {h : Heap N} (hh : h.check = .ok ()) :
    let address (n : Nat) : String := "0x" ++ String.ofList (Nat.toDigits 16 n)
    let shown (bs : List BlockInfo) : String := " ".intercalate (bs.map fun b =>
      let use := if b.used then "used" else "free"
      s!"[{use} {b.size} @{b.offset}]")
    (∀ size,
      (∀ p, (allocate size h).result = .ok p →
        ∃ cuts, (allocate size h).log = cuts ++ [.allocated size p] ∧ cuts.length ≤ 1 ∧
          (∀ r ∈ cuts, ∃ x a b y, r = .split x a b y ∧
            r.message = s!"split block {address x}: {a} + {b} bytes at {address y}") ∧
          (Record.allocated size p).message = s!"allocate({size}) -> {address p.offset}") ∧
      (∀ e, (allocate size h).result = .error e →
        (allocate size h).state = h ∧
        (allocate size h).log = [.growthRefused, .allocationFailed size h.blocks] ∧
        (allocate size h).log.map Record.message =
          ["expand: heap growth is not supported",
            s!"allocate({size}) failed: {shown h.blocks}"]) ∧
      Replay.Tells (allocate size h).log h.blocks (allocate size h).state.blocks) ∧
    (∀ p,
      ((tryRelease p h).result = .ok () →
        release p h = tryRelease p h ∧
        ∃ joins t, (tryRelease p h).state = t ∧
          (tryRelease p h).log = joins ++ [.released p t.blocks] ∧ joins.length ≤ 2 ∧
          (∀ r ∈ joins, ∃ y x n, r = .merged y x n ∧
            r.message = s!"merged block {address y} into {address x}: {n} bytes") ∧
          (Record.released p t.blocks).message =
            s!"release({address p.offset}): {shown t.blocks}") ∧
      (∀ e, (tryRelease p h).result = .error e →
        (tryRelease p h).state = h ∧ (tryRelease p h).log = [] ∧
        ∃ reason, release p h = ⟨.ok (), h, [.releaseIgnored reason]⟩ ∧ e = .refused reason ∧
          (Record.releaseIgnored reason).level = .warn ∧
          (Record.releaseIgnored reason).message = s!"release ignored: {reason.message}") ∧
      Replay.Tells (tryRelease p h).log h.blocks (tryRelease p h).state.blocks ∧
      Replay.Tells (release p h).log h.blocks (release p h).state.blocks) ∧
    Function.Injective shown := by
  intro address shown
  rcases (check_eq_ok_iff h).mp hh with ⟨l, hl⟩
  refine ⟨fun size => ?_, fun p => ?_, BlockInfo.map_injective⟩
  · cases hf : l.firstFit? size with
    | none =>
        rw [hl.allocate_of_noFit hf, ← hl.blocks_eq]
        refine ⟨fun p hp => ?_, fun e _ => ⟨rfl, rfl, rfl⟩, Replay.tells_of_log rfl⟩
        cases hp
    | some f =>
        rcases hl.allocate_of_fit hf with ⟨t, ht, hholds, -⟩
        rcases eq_of_firstFit? hf with ⟨rfl, hfree, -⟩
        rw [ht, hl.blocks_eq]
        refine ⟨fun p hp => ?_, fun e he => ?_, ?_⟩
        · cases hp
          rcases cutLog_cuts f.before.span f.here size with ⟨hlength, hcuts⟩
          refine ⟨_, rfl, hlength, fun r hr => ?_, rfl⟩
          rcases hcuts r hr with ⟨x, a, b, y, rfl⟩
          exact ⟨x, a, b, y, rfl, rfl⟩
        · cases he
        · dsimp only
          rw [hholds.blocks_eq]
          exact Replay.tells_of_log (Replay.log_cutLog size hfree)
  · cases hp : h.payload? p with
    | none =>
        have ht := hl.tryRelease_of_noPayload hp
        rw [release_of_refused ht, ht]
        refine ⟨fun ho => ?_, fun e he => ?_, Replay.tells_of_log rfl, Replay.tells_of_log rfl⟩
        · cases ho
        · cases he
          exact ⟨rfl, rfl, _, rfl, rfl, rfl, rfl⟩
    | some s =>
        rcases hl.exists_mem_of_payload? hp with ⟨b, hb, rfl⟩
        rcases exists_focus_of_mem_usedFrom hb with ⟨f, rfl, hused, hoffset, -⟩
        have hhandle : b.payload = f.handle := by rw [BlockInfo.payload, hoffset, Focus.handle]
        rcases hl.tryRelease_of_used hused with ⟨t, ht, hholds, -⟩
        have hreplay := Replay.log_freeLog f.free.blocks hused
        rw [hhandle, release_of_ok ht, ht, hl.blocks_eq]
        rw [← hholds.blocks_eq] at hreplay ⊢
        rcases freeLog_joins f with ⟨hlength, hjoins⟩
        refine ⟨fun _ => ⟨rfl, _, t, rfl, rfl, hlength, fun r hr => ?_, rfl⟩, fun e he => ?_,
          Replay.tells_of_log hreplay, Replay.tells_of_log hreplay⟩
        · rcases hjoins r hr with ⟨y, x, n, rfl⟩
          exact ⟨y, x, n, rfl, rfl⟩
        · cases he

/-- A block between two free ones is released, and both joins are printed. Before
    that, the heap cuts a block for an allocation, and refuses a request that is
    too large. From the lines of the release and the map before it, one can only
    come to the one block that is left. -/
theorem replay_of_two_joins :
    ∃ h : Heap 160, h.check = .ok () ∧
      h.map = "[free 16 @0] [used 16 @32] [free 80 @64]" ∧
      (allocate 17 h).log.map Record.message =
        ["split block 0x40: 17 + 47 bytes at 0x61", "allocate(17) -> 0x50"] ∧
      (allocate 81 h).log.map Record.message =
        ["expand: heap growth is not supported",
          "allocate(81) failed: [free 16 @0] [used 16 @32] [free 80 @64]"] ∧
      ∀ rs bs,
        rs.map Record.message =
          ["merged block 0x40 into 0x20: 112 bytes", "merged block 0x20 into 0x0: 144 bytes",
            "release(0x30): [free 144 @0]"] →
        BlockInfo.map bs = "[free 16 @0] [used 16 @32] [free 80 @64]" →
        Replay.log rs bs = some [⟨0, false, 144⟩] := by
  let h : Heap 160 := (tryRelease ⟨16⟩ (allocate 16 (allocate 16
    (Heap.initial (by decide) (by decide))).state).state).state
  have hcheck : h.check = .ok () := by decide +kernel
  have hmap : BlockInfo.map h.blocks = "[free 16 @0] [used 16 @32] [free 80 @64]" := by
    decide +kernel
  have hfull : (allocate 81 h).result = .error (.refused (.exhausted 81)) := by decide +kernel
  have hlines : (tryRelease ⟨48⟩ h).log.map Record.message =
      ["merged block 0x40 into 0x20: 112 bytes", "merged block 0x20 into 0x0: 144 bytes",
        "release(0x30): [free 144 @0]"] := by decide +kernel
  have hafter : (tryRelease ⟨48⟩ h).state.blocks = [⟨0, false, 144⟩] := by decide +kernel
  rcases log_replays hcheck with ⟨hallocate, hrelease, -⟩
  refine ⟨h, hcheck, hmap, by decide +kernel, ?_, fun rs bs hrs hbs => ?_⟩
  · rw [((hallocate 81).2.1 _ hfull).2.2]
    decide +kernel
  · rw [← hafter]
    exact (hrelease ⟨48⟩).2.2.1 rs bs (hrs.trans hlines.symm) (hbs.trans hmap.symm)

end Heap

end Freestanding
