import ProtoScribe.Proofs.Text.Refusal
import ProtoScribe.Proofs.Write.Ends

/-!
# Contents that are no text

Under a name without a slash, a write fails for its content exactly if the content is not the
encoding of a text, and then nothing but the report of it has happened. The error tells where the
longest start that is a text ends, and whether more bytes could have made a text of the content.

Behind the check only storage can refuse, which `fromStorage_of_writeBytes` says once for both ways
of writing; so no other failure is mistaken for this one.
-/

namespace ProtoScribe.World

open ProtoScribe.Path

variable {w : World} {mode : WriteMode} {name : String} {dir : Path} {bytes : List UInt8}

/-- What storage refuses is not blamed on the content. -/
theorem FromStorage.step_ne_encoding {target : Path} {e : WriteError}
    (h : FromStorage dir target e) : e.step ≠ .encoding := by
  cases h <;> exact nofun

/-- A content that does not decode is refused before anything is touched. -/
theorem writeBytes_apply_of_fault {fault : Utf8.Fault} (hname : '/' ∉ name.toList)
    (hd : Utf8.decode bytes = .error fault) :
    host.writeBytes mode name dir bytes w =
      (.error (.encoding (dir.join ⟨protoFileName name⟩) fault), { w with
        events := w.events ++ [.notWritten (.encoding (dir.join ⟨protoFileName name⟩) fault)] }) :=
  writeBytes_apply_of_error
    (persist_of_not_text _ (isFileName_protoFileName_iff.mpr hname) hd)

/-- The failures of the check are those of bytes that do not decode. -/
theorem exists_fault_of_encoding {e : WriteError} (hname : '/' ∉ name.toList)
    (h : (host.writeBytes mode name dir bytes w).1 = .error e) (he : e.step = .encoding) :
    ∃ fault, Utf8.decode bytes = .error fault := by
  rw [Utf8.exists_decode_eq_error_iff]
  intro text hbytes
  exact (fromStorage_of_writeBytes hname hbytes h).step_ne_encoding he

/-- **The check of a content is exact, and comes before every effect.** A write under a name without
a slash fails for its content exactly if that is the encoding of no text. Then the world is as
before but for the report, the error wraps a fault whose place is the length of the longest start
that is a text, and the fault is that of bytes that end too early exactly if more bytes could make a
text of them. -/
theorem content_check_exact (w : World) (mode : WriteMode) (name : String) (dir : Path)
    (bytes : List UInt8) (hname : '/' ∉ name.toList) :
    let out := host.writeBytes mode name dir bytes w
    ((∃ e, out.1 = .error e ∧ e.step = .encoding) ↔ ∀ text, Utf8.encode text ≠ bytes) ∧
    ∀ e, out.1 = .error e → e.step = .encoding →
      out.2 = { w with events := w.events ++ [.notWritten e] } ∧
      ∃ fault, e = .encoding (dir.join ⟨protoFileName name⟩) fault ∧
        IsGreatest {n | n ≤ bytes.length ∧ ∃ text, Utf8.encode text = bytes.take n} fault.index ∧
        (fault = .incomplete fault.index ↔ ∃ more text, Utf8.encode text = bytes ++ more) := by
  intro out
  constructor
  · constructor
    · rintro ⟨e, he, hstep⟩
      exact Utf8.exists_decode_eq_error_iff.mp (exists_fault_of_encoding hname he hstep)
    · intro hnone
      obtain ⟨fault, hd⟩ := Utf8.exists_decode_eq_error_iff.mpr hnone
      exact ⟨_, congrArg Prod.fst (writeBytes_apply_of_fault hname hd), rfl⟩
  · intro e he hstep
    obtain ⟨fault, hd⟩ := exists_fault_of_encoding hname he hstep
    have hout : out = _ := writeBytes_apply_of_fault hname hd
    rw [hout] at he ⊢
    cases he
    exact ⟨rfl, fault, rfl, Utf8.isGreatest_index_of_decode hd, Utf8.incomplete_iff_of_decode hd⟩

/-- Behind one letter stand three of the four bytes of another. The letter alone is a text, and one
byte more makes a text of the whole; and the directory is not made. -/
theorem content_check_exact_cut :
    let w : World := {}
    let out := host.writeBytes .truncate "a" ⟨"out"⟩ [0x61, 0xF0, 0x9F, 0x98] w
    out.1 = .error (.encoding ⟨"out/a.proto"⟩ (.incomplete 1)) ∧ out.2.tree = w.tree := by
  intro w out
  have hd : Utf8.decode [0x61, 0xF0, 0x9F, 0x98] = .error (.incomplete 1) := rfl
  obtain ⟨hiff, hall⟩ := content_check_exact w .truncate "a" ⟨"out"⟩ [0x61, 0xF0, 0x9F, 0x98]
    (by decide)
  obtain ⟨e, he, hstep⟩ := hiff.mpr (Utf8.exists_decode_eq_error_iff.mp ⟨_, hd⟩)
  obtain ⟨hworld, fault, rfl, hgreatest, hcut⟩ := hall e he hstep
  have hindex : fault.index = 1 := hgreatest.unique (Utf8.isGreatest_index_of_decode hd)
  have hfault : fault = .incomplete fault.index := hcut.mpr ⟨[0x80], "a😀", by decide⟩
  rw [hfault, hindex] at he
  exact ⟨he, by rw [hworld]⟩

end ProtoScribe.World
