import Freestanding.LittleEndian
import Freestanding.Region

/-!
# Block Headers

The sixteen bytes in front of every payload.

A block says whether it is in use, how many payload bytes follow its header,
and where the headers of its neighbours are. In a region this is four
little-endian words of four bytes each:

```text
  offset  +0        +4        +8         +12        +16
          | tag     | size    | previous | next     | payload ...
```

The tag is one of two words. Any other one there means that the offset is not
that of a header, and reading it gives nothing. A link is an offset, and the
largest word stands for no link at all, so the last byte a region can have is
the one before that offset and `maxRegion` is a limit no region reaches.

Writing takes what fits into the fields. A size or an offset of a region below
the limit always does, and then `read?_write` says that reading gives the
header back. A block that is absorbed by its neighbour loses its tag and
nothing else.

## Main definitions

* `Header`: What a block says about itself.
* `Header.encode`, `Header.decode?`: A header as sixteen bytes.
* `Header.read?`: The header at an offset of a region.
* `Header.write`: Writing a header to an offset.
* `Header.erase`: Taking the tag away.
* `Header.Fits`: Every field fits where it is written.

## Theorems

* `Header.decode?_encode`: A header that fits is read back.
* `Header.encode_of_decode?`: Bytes that are read are written back.
* `Header.fits_of_decode?`: What is read fits.
* `Header.read?_eq_some_bounds`: A header that is read is in the region.
* `Header.exists_read?_iff`, `Header.read?_of_noTag`: Where a header is read.
* `Header.slice?_of_read?`: What is read is what is there.
* `Header.overwrite_used`: Writing a header back with another use.
* `Header.read?_overwrite_self`, `Header.read?_overwrite_of_disjoint`,
  `Header.read?_overwrite_noTag`: What is read after a write.
-/

namespace Freestanding

/-- What a block says about itself. -/
structure Header where
  /-- Whether the payload is in use. -/
  used : Bool
  /-- The number of payload bytes. -/
  size : Nat
  /-- The offset of the header before this one. -/
  previous : Option Nat
  /-- The offset of the header behind this one. -/
  next : Option Nat
  deriving DecidableEq, Repr

namespace Header

variable {N : Nat}

/-- The number of bytes in one field. -/
def fieldSize : Nat := 4

/-- One more than the largest word in a field. -/
def wordLimit : Nat := LittleEndian.values fieldSize

/-- The number of bytes in front of every payload. -/
def byteSize : Nat := 4 * fieldSize

/-- The word that stands for no link. -/
def noLink : Nat := 0xFFFFFFFF

/-- A number that the size of every region is below. -/
def maxRegion : Nat := noLink

/-- The tag of a free block. -/
def freeTag : Nat := 0x46524545

/-- The tag of a block in use. -/
def usedTag : Nat := 0x55534544

/-- The tag of a block. -/
def tag (used : Bool) : Nat :=
  if used then usedTag else freeTag

/-- Whether a block with this tag is in use, if it is a tag. -/
def used? (word : Nat) : Option Bool :=
  if word = freeTag then some false
  else if word = usedTag then some true
  else none

/-- The word a link is written as. -/
def linkWord (link : Option Nat) : Nat :=
  link.getD noLink

/-- The link that a word stands for. -/
def link? (word : Nat) : Option Nat :=
  if word = noLink then none else some word

/-- The words in the fields of a header, in order. -/
def words (h : Header) : List Nat :=
  [tag h.used, h.size, linkWord h.previous, linkWord h.next]

/-- A header as bytes. -/
def encode (h : Header) : Bytes :=
  h.words.flatMap (LittleEndian.encode fieldSize)

/-- The word in a field of the header that starts with these bytes. -/
def field (s : Bytes) (i : Nat) : Nat :=
  LittleEndian.decode ((s.drop (i * fieldSize)).take fieldSize)

/-- The header that bytes stand for, if their tag is one. -/
def decode? (s : Bytes) : Option Header := do
  let used ← used? (field s 0)
  return {
    used
    size := field s 1
    previous := link? (field s 2)
    next := link? (field s 3)
  }

/-- The header at offset `pos`, if there is one. -/
def read? (r : Region N) (pos : Nat) : Option Header := do
  decode? (← r.slice? pos byteSize)

/-- Writes a header to offset `pos`. -/
def write (r : Region N) (pos : Nat) (h : Header) : Checked (Region N) :=
  r.write pos h.encode

/-- What is written where a tag is taken away. -/
def noTag : Bytes := List.replicate fieldSize 0

/-- Takes the tag of the header at offset `pos` away. -/
def erase (r : Region N) (pos : Nat) : Checked (Region N) :=
  r.write pos noTag

/-- Every field of the header fits into its four bytes, and no offset is
    written like a missing link. -/
structure Fits (h : Header) : Prop where
  /-- The size fits. -/
  size : h.size < wordLimit
  /-- The link back fits. -/
  previous : ∀ p, h.previous = some p → p < noLink
  /-- The link onwards fits. -/
  next : ∀ p, h.next = some p → p < noLink

theorem byteSize_pos : 0 < byteSize := by decide

theorem fieldSize_le_byteSize : fieldSize ≤ byteSize := by decide

theorem maxRegion_lt_wordLimit : maxRegion < wordLimit := by decide

/-- A header is written as sixteen bytes. -/
@[simp] theorem length_encode (h : Header) : h.encode.length = byteSize := by
  simp only [encode, words, List.flatMap_cons, List.flatMap_nil, List.length_append,
    LittleEndian.length_encode, List.length_nil]
  rfl

@[simp] theorem used?_tag (used : Bool) : used? (tag used) = some used := by
  cases used <;> rfl

/-- A word with a use is that tag. -/
theorem tag_of_used? {word : Nat} {used : Bool} (h : used? word = some used) :
    tag used = word := by
  unfold used? at h
  split at h
  · cases h; rename_i hw; exact hw.symm
  · split at h
    · cases h; rename_i hw; exact hw.symm
    · cases h

/-- The words of tags fit into a field. -/
theorem tag_lt (used : Bool) : tag used < wordLimit := by
  cases used <;> decide

/-- A word is written back as it was read. -/
theorem linkWord_link? {word : Nat} : linkWord (link? word) = word := by
  unfold link?
  split
  · rename_i h; exact h.symm
  · rfl

/-- A link below the mark for none is read back. -/
theorem link?_linkWord {link : Option Nat} (h : ∀ p, link = some p → p < noLink) :
    link? (linkWord link) = link := by
  cases link with
  | none => rfl
  | some p => exact if_neg (Nat.ne_of_lt (h p rfl))

/-- A word in a field is below the number of words. -/
theorem field_lt (s : Bytes) (i : Nat) : field s i < wordLimit := by
  refine Nat.lt_of_lt_of_le (LittleEndian.decode_lt _) (LittleEndian.values_mono ?_)
  rw [List.length_take]
  exact Nat.min_le_left _ _

/-- The fields of bytes that were written are the words written, each without
    the part that had no room. -/
theorem field_flatMap (ws : List Nat) (i : Nat) :
    field (ws.flatMap (LittleEndian.encode fieldSize)) i = ws.getD i 0 % wordLimit := by
  induction ws generalizing i with
  | nil => simp [field, LittleEndian.decode]
  | cons w ws ih =>
      have hlen : (LittleEndian.encode fieldSize w).length = fieldSize :=
        LittleEndian.length_encode _ _
      cases i with
      | zero =>
          rw [field, Nat.zero_mul, List.drop_zero, List.flatMap_cons, List.take_left' hlen,
            LittleEndian.decode_encode]
          rfl
      | succ i =>
          have hdrop : (i + 1) * fieldSize =
              (LittleEndian.encode fieldSize w).length + i * fieldSize := by
            rw [hlen, Nat.succ_mul, Nat.add_comm]
          rw [List.getD_cons_succ, ← ih, field, field, List.flatMap_cons, hdrop,
            List.drop_length_add_append]

/-- What is read from the bytes of any header: the use is kept, and the other
    fields lose what had no room. -/
theorem decode?_encode_eq (h : Header) :
    decode? h.encode = some {
      used := h.used
      size := h.size % wordLimit
      previous := link? (linkWord h.previous % wordLimit)
      next := link? (linkWord h.next % wordLimit)
    } := by
  have htag : used? (field h.encode 0) = some h.used := by
    rw [encode, field_flatMap]
    exact (congrArg used? (Nat.mod_eq_of_lt (tag_lt _))).trans (used?_tag _)
  simp only [decode?, htag]
  simp only [encode, field_flatMap]
  rfl

/-- A link that fits is a word that fits. -/
theorem linkWord_lt {link : Option Nat} (h : ∀ p, link = some p → p < noLink) :
    linkWord link < wordLimit := by
  have hlt : noLink < wordLimit := by decide
  cases link with
  | none => exact hlt
  | some p => exact Nat.lt_trans (h p rfl) hlt

/-- A header whose fields fit is read back. -/
theorem decode?_encode {h : Header} (hfits : h.Fits) : decode? h.encode = some h := by
  rw [decode?_encode_eq, Nat.mod_eq_of_lt hfits.size, Nat.mod_eq_of_lt (linkWord_lt hfits.previous),
    Nat.mod_eq_of_lt (linkWord_lt hfits.next), link?_linkWord hfits.previous,
    link?_linkWord hfits.next]

/-- The fields of what is read fit. -/
theorem fits_of_decode? {s : Bytes} {h : Header} (hs : decode? s = some h) : h.Fits := by
  have hlink : ∀ i p, link? (field s i) = some p → p < noLink := by
    intro i p hp
    have hlt := field_lt s i
    unfold link? at hp
    split at hp
    · cases hp
    · rename_i hne
      cases hp
      have hlimit : wordLimit = noLink + 1 := by decide
      omega
  unfold decode? at hs
  cases hu : used? (field s 0) with
  | none => rw [hu] at hs; cases hs
  | some used =>
      rw [hu] at hs
      cases hs
      exact ⟨field_lt s 1, hlink 2, hlink 3⟩

/-- Sixteen bytes that are read are the bytes written for that header. -/
theorem encode_of_decode? {s : Bytes} {h : Header} (hlen : s.length = byteSize)
    (hs : decode? s = some h) : h.encode = s := by
  have hfield : ∀ i, (i + 1) * fieldSize ≤ byteSize →
      LittleEndian.encode fieldSize (field s i) = (s.drop (i * fieldSize)).take fieldSize := by
    intro i hi
    have hl : ((s.drop (i * fieldSize)).take fieldSize).length = fieldSize := by
      rw [List.length_take, List.length_drop, hlen]
      rw [Nat.succ_mul] at hi
      omega
    have he := LittleEndian.encode_decode ((s.drop (i * fieldSize)).take fieldSize)
    rwa [hl] at he
  unfold decode? at hs
  cases hu : used? (field s 0) with
  | none => rw [hu] at hs; cases hs
  | some used =>
      rw [hu] at hs
      cases hs
      simp only [encode, words, linkWord_link?, tag_of_used? hu, List.flatMap_cons,
        List.flatMap_nil, List.append_nil]
      rw [hfield 0 (by decide), hfield 1 (by decide), hfield 2 (by decide), hfield 3 (by decide)]
      simp only [byteSize, fieldSize] at hlen ⊢
      have hlast : (s.drop (3 * 4)).take 4 = s.drop (3 * 4) :=
        List.take_of_length_le (by rw [List.length_drop]; omega)
      rw [hlast, show s.drop (3 * 4) = (s.drop (2 * 4)).drop 4 by rw [List.drop_drop],
        List.take_append_drop, show s.drop (2 * 4) = (s.drop (1 * 4)).drop 4 by rw [List.drop_drop],
        List.take_append_drop, show s.drop (1 * 4) = (s.drop (0 * 4)).drop 4 by rw [List.drop_drop],
        List.take_append_drop, Nat.zero_mul, List.drop_zero]

/-- A header that is read lies in the region. -/
theorem read?_eq_some_bounds {r : Region N} {pos : Nat} {h : Header} (hr : read? r pos = some h) :
    pos + byteSize ≤ N := by
  unfold read? at hr
  cases hs : r.slice? pos byteSize with
  | none => rw [hs] at hr; cases hr
  | some s => exact (Region.slice?_eq_some_iff.mp hs).1

/-- The fields of a header that is read fit. -/
theorem fits_of_read? {r : Region N} {pos : Nat} {h : Header} (hr : read? r pos = some h) :
    h.Fits := by
  unfold read? at hr
  cases hs : r.slice? pos byteSize with
  | none => rw [hs] at hr; cases hr
  | some s => rw [hs] at hr; exact fits_of_decode? hr

/-- A header that is read is the one its sixteen bytes were written for. -/
theorem slice?_of_read? {r : Region N} {pos : Nat} {h : Header} (hr : read? r pos = some h) :
    r.slice? pos byteSize = some h.encode := by
  unfold read? at hr
  cases hs : r.slice? pos byteSize with
  | none => rw [hs] at hr; cases hr
  | some s =>
      rw [hs] at hr
      rw [encode_of_decode? (Region.length_of_slice? hs) hr]

/-- Writing a header with another use where it is read changes the tag and
    nothing else. -/
theorem overwrite_used {r : Region N} {pos : Nat} {h : Header} (hr : read? r pos = some h)
    (used : Bool) :
    r.overwrite pos { h with used }.encode =
      r.overwrite pos (LittleEndian.encode fieldSize (tag used)) := by
  have hlen : ∀ u, (LittleEndian.encode fieldSize (tag u)).length = fieldSize :=
    fun u => LittleEndian.length_encode _ _
  have hrest : { h with used }.encode =
      LittleEndian.encode fieldSize (tag used) ++
        h.encode.drop (LittleEndian.encode fieldSize (tag used)).length := by
    rw [hlen used]
    simp only [encode, words, List.flatMap_cons, List.drop_left' (hlen h.used)]
  rw [hrest, Region.overwrite_front _ (slice?_of_read? hr)]

/-- The bytes of a header are there after it is written. -/
theorem slice?_overwrite_encode {r : Region N} {pos : Nat} (h : Header)
    (hN : pos + byteSize ≤ N) :
    (r.overwrite pos h.encode).slice? pos byteSize = some h.encode := by
  have hs : (r.overwrite pos h.encode).slice? pos h.encode.length = some h.encode :=
    Region.slice?_overwrite_self (by rw [length_encode]; exact hN)
  rwa [length_encode] at hs

/-- A header that fits is there after it is written. -/
theorem read?_overwrite_self {r : Region N} {pos : Nat} {h : Header} (hN : pos + byteSize ≤ N)
    (hfits : h.Fits) : read? (r.overwrite pos h.encode) pos = some h := by
  rw [read?, slice?_overwrite_encode h hN]
  exact decode?_encode hfits

/-- A write that touches no byte of a header leaves it readable as it was. -/
theorem read?_overwrite_of_disjoint {r : Region N} {pos : Nat} {s : Bytes} {p : Nat}
    (h : p + byteSize ≤ pos ∨ pos + s.length ≤ p) :
    read? (r.overwrite pos s) p = read? r p := by
  rw [read?, read?, Region.slice?_overwrite_of_disjoint h]

/-- Bytes are those of a header exactly if the first word is a tag. -/
theorem exists_decode?_iff {s : Bytes} :
    (∃ h, decode? s = some h) ↔ ∃ used, field s 0 = tag used := by
  unfold decode?
  cases hu : used? (field s 0) with
  | none =>
      refine iff_of_false (fun hs => ?_) fun hs => ?_
      · rcases hs with ⟨h, hs⟩
        cases hs
      · rcases hs with ⟨used, htag⟩
        rw [htag, used?_tag] at hu
        cases hu
  | some used => exact iff_of_true ⟨_, rfl⟩ ⟨used, (tag_of_used? hu).symm⟩

/-- A header is read exactly where there is room for one behind a tag. -/
theorem exists_read?_iff {r : Region N} {pos : Nat} :
    (∃ h, read? r pos = some h) ↔ pos + byteSize ≤ N ∧
      ∃ used, (r.slice? pos fieldSize).map LittleEndian.decode = some (tag used) := by
  unfold read?
  cases hs : r.slice? pos byteSize with
  | none =>
      refine iff_of_false (fun h => ?_) fun h => ?_
      · rcases h with ⟨h, hr⟩
        cases hr
      · exact absurd h.1 (Nat.not_le_of_lt (Region.slice?_eq_none_iff.mp hs))
  | some s =>
      have hfield : field s 0 = LittleEndian.decode (s.take fieldSize) := by
        rw [field, Nat.zero_mul, List.drop_zero]
      rw [Region.slice?_take hs fieldSize_le_byteSize, Option.map_some, ← hfield]
      show (∃ h, decode? s = some h) ↔ _
      rw [exists_decode?_iff, and_iff_right (Region.slice?_eq_some_iff.mp hs).1]
      simp only [Option.some.injEq]

/-- Where the bytes of a tag are zero, no header is read. -/
theorem read?_of_noTag {r : Region N} {pos : Nat} (hs : r.slice? pos fieldSize = some noTag) :
    read? r pos = none := by
  rw [Option.eq_none_iff_forall_ne_some]
  intro h hr
  rcases exists_read?_iff.mp ⟨h, hr⟩ with ⟨-, used, htag⟩
  rw [hs] at htag
  cases used <;> cases htag

/-- Where the tag is taken away, no header is read. -/
theorem read?_overwrite_noTag (r : Region N) (pos : Nat) :
    read? (r.overwrite pos noTag) pos = none := by
  rcases Nat.lt_or_ge N (pos + noTag.length) with hout | hin
  · rw [Option.eq_none_iff_forall_ne_some]
    intro h hr
    have hbounds := read?_eq_some_bounds hr
    have hsize : noTag.length ≤ byteSize := fieldSize_le_byteSize
    omega
  · exact read?_of_noTag (Region.slice?_overwrite_self hin)

end Header

end Freestanding
