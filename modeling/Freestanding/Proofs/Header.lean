import Freestanding.Header
import Freestanding.Word

/-!
# Headers in a Region

What is read where a header was written, and the other way around.

A header is written with what fits into its fields. The size and the links lose
what is above four bytes, and a link that then looks like the mark for none is
none when it is read. `kept` is the header without those parts. For one whose
fields fit, nothing is lost, and on these headers and the runs of sixteen bytes
that start with a tag, writing and reading are inverse to each other:
`read?_eq_some_iff` has both directions in it. So a header that was read can be
written back without a trace, which is what makes it possible to change a
single field by writing all of them.

What is read depends on the sixteen bytes at its offset and what is written
stays in them, so a header sixteen bytes away or more does not notice. That
there are sixteen bytes at an offset also means that the sum of both is a
word, because the size of the region is one.

## Main definitions

* `Header.kept`: What is left of a header that is written.

## Theorems

* `Header.decode?_encode_kept`, `Header.kept_of_fits`: Reading what was written.
* `Header.read?_eq_some_iff`: A header is read where its bytes are.
* `Header.codec_exact`: Writing, reading and taking a tag away.
-/

namespace Freestanding

namespace Header

variable {N : Nat}

/-- What is left of a link in four bytes. -/
def keptLink (link : Option Nat) : Option Nat :=
  link.bind fun p => if p % 0x100000000 = 0xFFFFFFFF then none else some (p % 0x100000000)

/-- What is left of a header in the sixteen bytes that are written for it. -/
def kept (h : Header) : Header where
  used := h.used
  size := h.size % 0x100000000
  previous := keptLink h.previous
  next := keptLink h.next

theorem link?_linkWord_mod (link : Option Nat) :
    link? (linkWord link % wordLimit) = keptLink link := by
  cases link <;> rfl

/-- What is read of any header is what was left of it. -/
theorem decode?_encode_kept (h : Header) : decode? h.encode = some h.kept := by
  rw [decode?_encode_eq, link?_linkWord_mod, link?_linkWord_mod]
  rfl

/-- Nothing is lost of a header whose fields fit. -/
theorem kept_of_fits {h : Header} (hfits : h.Fits) : h.kept = h := by
  rw [← Option.some_inj, ← decode?_encode_kept]
  exact decode?_encode hfits

/-- A header is read exactly where its bytes are, and it is one whose fields
    fit. -/
theorem read?_eq_some_iff {r : Region N} {pos : Nat} {h : Header} :
    read? r pos = some h ↔ h.Fits ∧ r.slice? pos byteSize = some h.encode := by
  constructor
  · exact fun hr => ⟨fits_of_read? hr, slice?_of_read? hr⟩
  · rintro ⟨hfits, hs⟩
    rw [read?, hs]
    exact decode?_encode hfits

/-- What is read after a write at the same offset. -/
theorem read?_overwrite_kept {r : Region N} {pos : Nat} (h : Header) (hN : pos + byteSize ≤ N) :
    read? (r.overwrite pos h.encode) pos = some h.kept := by
  rw [read?, slice?_overwrite_encode h hN]
  exact decode?_encode_kept h

/-- A header is written where there is room for it, and then it is read there,
    in full if its fields fit and otherwise without what is above four bytes.
    No other byte changes, and no header that does not overlap reads
    differently. What is read is the header that fits and that the bytes are
    written for, and writing it back changes nothing. Some header is read
    exactly where there is room for one and the first word is one of two, so
    there is none where its end would not be a word. Taking a tag away changes
    four bytes and leaves no header. -/
theorem codec_exact (r : Region N) (pos : Nat) :
    (∀ h, pos + 16 ≤ N →
      ∃ t, write r pos h = .ok t ∧ read? t pos = some h.kept ∧ (h.Fits → read? t pos = some h) ∧
        (∀ i, i < pos ∨ pos + 16 ≤ i → t[i]? = r[i]?) ∧
        ∀ q, q + 16 ≤ pos ∨ pos + 16 ≤ q → read? t q = read? r q) ∧
      (∀ h, read? r pos = some h ↔ h.Fits ∧ r.slice? pos 16 = some h.encode) ∧
      (∀ h, read? r pos = some h → write r pos h = .ok r) ∧
      ((∃ h, read? r pos = some h) ↔ pos + 16 ≤ N ∧
        ((r.slice? pos 4).map LittleEndian.decode = some 0x46524545 ∨
          (r.slice? pos 4).map LittleEndian.decode = some 0x55534544)) ∧
      (N < Word.limit → Word.limit ≤ pos + 16 → read? r pos = none) ∧
      (pos + 4 ≤ N →
        ∃ t, erase r pos = .ok t ∧ read? t pos = none ∧
          ∀ i, i < pos ∨ pos + 4 ≤ i → t[i]? = r[i]?) := by
  refine ⟨fun h hN => ?_, fun h => read?_eq_some_iff, fun h hr => ?_, ?_, fun hlimit hpos => ?_,
    fun hN => ?_⟩
  · have hlength : h.encode.length = 16 := length_encode h
    have hread := read?_overwrite_kept (r := r) h hN
    refine ⟨_, Region.write_eq_ok (by rw [hlength]; exact hN), hread, fun hfits => ?_,
      fun i hi => ?_, fun q hq => ?_⟩
    · rw [hread, kept_of_fits hfits]
    · exact Region.getElem?_overwrite_of_notMem (by rw [hlength]; exact hi)
    · exact read?_overwrite_of_disjoint (by rw [hlength]; exact hq)
  · have hlength : h.encode.length = byteSize := length_encode h
    rw [write, Region.write_eq_ok (by rw [hlength]; exact read?_eq_some_bounds hr),
      Region.overwrite_self (slice?_of_read? hr)]
  · rw [exists_read?_iff, Bool.exists_bool]
    rfl
  · rw [Option.eq_none_iff_forall_ne_some]
    intro h hr
    have hbounds := read?_eq_some_bounds hr
    have hsize : byteSize = 16 := rfl
    omega
  · exact ⟨_, Region.write_eq_ok hN, read?_overwrite_noTag r pos,
      fun i hi => Region.getElem?_overwrite_of_notMem hi⟩

/-- A link one below the mark for none is the largest that is read back. The
    mark itself is read as no link, and a size of more than four bytes loses
    what is above them. -/
theorem codec_at_largest_link :
    ∃ t u v : Region 32,
      write (Region.zeros 32) 8 ⟨true, 5, some 0xFFFFFFFE, none⟩ = .ok t ∧
      read? t 8 = some ⟨true, 5, some 0xFFFFFFFE, none⟩ ∧
      write t 8 ⟨true, 5, some 0xFFFFFFFE, none⟩ = .ok t ∧
      write t 8 ⟨false, 0x100000007, some 0xFFFFFFFF, some 0x100000000⟩ = .ok u ∧
      read? u 8 = some ⟨false, 7, none, some 0⟩ ∧ erase u 8 = .ok v ∧ read? v 8 = none ∧
      read? v (Word.limit - 16) = none := by
  rcases (codec_exact (Region.zeros 32) 8).1 ⟨true, 5, some 0xFFFFFFFE, none⟩ (by decide) with
    ⟨t, ht, -, hread, -, -⟩
  have hfits : Fits ⟨true, 5, some 0xFFFFFFFE, none⟩ :=
    ⟨by decide, (fun p hp => by cases hp; decide), fun p hp => by cases hp⟩
  have hback := (codec_exact t 8).2.2.1 _ (hread hfits)
  rcases (codec_exact t 8).1 ⟨false, 0x100000007, some 0xFFFFFFFF, some 0x100000000⟩ (by decide)
    with ⟨u, hu, hkept, -⟩
  rcases (codec_exact u 8).2.2.2.2.2 (by decide) with ⟨v, hv, hgone, -⟩
  have hhigh := (codec_exact v (Word.limit - 16)).2.2.2.2.1 (by decide) (by decide)
  exact ⟨t, u, v, ht, hread hfits, hback, hu, hkept, hv, hgone, hhigh⟩

end Header

end Freestanding
