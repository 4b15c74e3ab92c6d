import NovelScript.Proofs.Digest.Crc32
import NovelScript.Proofs.Save.RoundTrip

/-! # Damaged saves are refused

A save file that passes the checks of its header is sealed: the header is the one that belongs to
the bytes behind it. No sealed file is the beginning of another, and no two differ in a single byte,
so a file that was written and then cut, lengthened or changed in one byte is sealed no more. -/

namespace NovelScript.SaveData

/-- The header that belongs to a payload. -/
def header (payload : Bytes) : Bytes :=
  magic ++ Bytes.ofNatLE 2 version ++ Bytes.ofNatLE 4 (Crc32.hash payload).toNat ++
    Bytes.ofNatLE 4 payload.length

/-- A file that is a payload behind the header that belongs to it. -/
structure Sealed (file payload : Bytes) : Prop where
  parts : file = header payload ++ payload
  fits : payload.length < UInt32.size
  present : payload ≠ []

theorem length_header (payload : Bytes) : (header payload).length = headerLength := by
  simp [header, Bytes.length_ofNatLE, magic, headerLength]

theorem header_inj {payload payload' : Bytes} (h : payload.length < UInt32.size)
    (h' : payload'.length < UInt32.size) (hheader : header payload = header payload') :
    Crc32.hash payload = Crc32.hash payload' ∧ payload.length = payload'.length := by
  unfold header at hheader
  obtain ⟨hfront, hlength⟩ := List.append_inj' hheader (by simp [Bytes.length_ofNatLE])
  obtain ⟨-, hhash⟩ := List.append_inj' hfront (by simp [Bytes.length_ofNatLE])
  constructor
  · apply UInt32.toNat_inj.mp
    exact Bytes.ofNatLE_inj (UInt32.toNat_lt _) (UInt32.toNat_lt _) hhash
  · exact Bytes.ofNatLE_inj h h' hlength

/-! ## Which files are sealed -/

theorem codec_encode_ne_nil (save : SaveData) : codec.encode save ≠ [] := by
  intro hempty
  have hid := save.scriptId.length_bytes
  have hlength := congrArg List.length hempty
  change (save.scriptId.bytes ++ _).length = 0 at hlength
  rw [List.length_append] at hlength
  omega

theorem sealed_of_toBinary {save : SaveData} {file : Bytes} (h : save.toBinary = .ok file) :
    Sealed file (codec.encode save) := by
  unfold toBinary at h
  simp only at h
  split at h
  · cases h
  · rename_i hsize
    cases h
    exact ⟨rfl, Nat.not_le.mp hsize, codec_encode_ne_nil save⟩

/-- A sealed file is refused for its payload or not at all. -/
theorem Sealed.fault_eq {file payload : Bytes} (h : Sealed file payload) {fault : SaveFault}
    (hfault : ofBinary file = .error fault) : fault = .encoding := by
  have hread := ofBinary_of_header h.present h.fits
  rw [h.parts, header, hread] at hfault
  split at hfault
  · cases hfault
  · cases hfault
    rfl

/-- Bytes that are read as a number are the digits of the number. -/
theorem ofNatLE_of_toNatLE {bytes : Bytes} {width n : Nat} (hwidth : bytes.length = width)
    (h : Bytes.toNatLE bytes = n) : Bytes.ofNatLE width n = bytes := by
  rw [← hwidth, ← h, Bytes.ofNatLE_toNatLE]

/-- The first bytes of a file by the fields of a header. -/
theorem take_headerLength (file : Bytes) :
    file.take headerLength = file.take 4 ++ (file.drop 4).take 2 ++ (file.drop 6).take 4 ++
      (file.drop 10).take 4 := by
  rw [show headerLength = 4 + 2 + 4 + 4 from rfl, List.take_add, List.take_add, List.take_add]

/-- A file whose header passes all checks is sealed. -/
theorem sealed_of_checks {file : Bytes} (hsize : headerLength ≤ file.length)
    (hmagic : file.take 4 = magic) (hversion : Bytes.toNatLE ((file.drop 4).take 2) = version)
    (hpresent : file.drop headerLength ≠ [])
    (hlength : Bytes.toNatLE ((file.drop 10).take 4) = (file.drop headerLength).length)
    (hchecksum : Bytes.toNatLE ((file.drop 6).take 4) =
      (Crc32.hash (file.drop headerLength)).toNat) :
    Sealed file (file.drop headerLength) := by
  have hfield : ∀ start width, start + width ≤ headerLength →
      ((file.drop start).take width).length = width := by
    intro start width hwithin
    rw [List.length_take, List.length_drop]
    omega
  refine ⟨?_, ?_, hpresent⟩
  · rw [header, ofNatLE_of_toNatLE (hfield 4 2 (by decide)) hversion,
      ofNatLE_of_toNatLE (hfield 6 4 (by decide)) hchecksum,
      ofNatLE_of_toNatLE (hfield 10 4 (by decide)) hlength, ← hmagic, ← take_headerLength,
      List.take_append_drop]
  · have hlt := Bytes.toNatLE_lt ((file.drop 10).take 4)
    rwa [hfield 10 4 (by decide), hlength] at hlt

/-- A file is sealed, or a check of its header refuses it. -/
theorem sealed_or_refused (file : Bytes) :
    Sealed file (file.drop headerLength) ∨
      ∃ fault, fault ≠ .encoding ∧ ofBinary file = .error fault := by
  by_cases hsize : file.length < headerLength
  · exact .inr ⟨.tooSmall, by simp, if_pos hsize⟩
  by_cases hmagic : file.take 4 ≠ magic
  · refine .inr ⟨.badMagic, by simp, ?_⟩
    rw [ofBinary, if_neg hsize, if_pos hmagic]
  by_cases hversion : Bytes.toNatLE ((file.drop 4).take 2) ≠ version
  · refine .inr ⟨.version (Bytes.toNatLE ((file.drop 4).take 2)) version, by simp, ?_⟩
    rw [ofBinary, if_neg hsize, if_neg hmagic, if_pos hversion]
  by_cases hpresent : file.drop headerLength = []
  · refine .inr ⟨.noPayload, by simp, ?_⟩
    rw [ofBinary, if_neg hsize, if_neg hmagic, if_neg hversion, if_pos hpresent]
  by_cases hlength : (file.drop headerLength).length ≠ Bytes.toNatLE ((file.drop 10).take 4)
  · refine .inr ⟨.length, by simp, ?_⟩
    rw [ofBinary, if_neg hsize, if_neg hmagic, if_neg hversion, if_neg hpresent, if_pos hlength]
  by_cases hchecksum : (Crc32.hash (file.drop headerLength)).toNat ≠
      Bytes.toNatLE ((file.drop 6).take 4)
  · refine .inr ⟨.checksum, by simp, ?_⟩
    rw [ofBinary, if_neg hsize, if_neg hmagic, if_neg hversion, if_neg hpresent, if_neg hlength,
      if_pos hchecksum]
  rw [ne_eq, Decidable.not_not] at hmagic hversion hlength hchecksum
  exact .inl (sealed_of_checks (Nat.not_lt.mp hsize) hmagic hversion hpresent hlength.symm
    hchecksum.symm)

/-! ## Sealed files apart -/

/-- No sealed file is the beginning of another. -/
theorem Sealed.eq_of_front {file file' payload payload' : Bytes} (h : Sealed file payload)
    (h' : Sealed file' payload') (hfront : file <+: file') : file = file' := by
  obtain ⟨rest, hrest⟩ := hfront
  rw [h.parts, h'.parts, List.append_assoc] at hrest
  obtain ⟨hheader, hpayload⟩ :=
    List.append_inj hrest (by rw [length_header, length_header])
  have hlength := (header_inj h.fits h'.fits hheader).2
  have hsame : payload = payload' := by
    have hnone : rest = [] := by
      apply List.eq_nil_of_length_eq_zero
      rw [← hpayload, List.length_append] at hlength
      omega
    rw [← hpayload, hnone, List.append_nil]
  rw [h.parts, h'.parts, hsame]

/-- The payload of a sealed file are the bytes behind its header. -/
theorem Sealed.payload_eq {file payload : Bytes} (h : Sealed file payload) :
    payload = file.drop headerLength := by
  rw [h.parts, List.drop_left' (length_header payload)]

/-- No two sealed files differ in a single byte. -/
theorem Sealed.byte_eq {front back payload payload' : Bytes} {old new : UInt8}
    (h : Sealed (front ++ old :: back) payload) (h' : Sealed (front ++ new :: back) payload') :
    new = old := by
  by_cases hplace : front.length < headerLength
  · -- The byte is one of the header, which the payload alone decides.
    have hrest : ∀ b : UInt8, (front ++ b :: back).drop headerLength =
        back.drop (headerLength - front.length - 1) := by
      intro b
      obtain ⟨n, hn⟩ : ∃ n, headerLength - front.length = n + 1 :=
        ⟨headerLength - front.length - 1, by omega⟩
      rw [List.drop_append, List.drop_eq_nil_of_le (Nat.le_of_lt hplace), hn]
      rfl
    have hsame : payload = payload' := by
      rw [h.payload_eq, h'.payload_eq, hrest, hrest]
    have hfile : front ++ old :: back = front ++ new :: back := by
      rw [h.parts, h'.parts, hsame]
    exact (List.cons.inj (List.append_cancel_left hfile)).1.symm
  · -- The byte is one of the payload, so the header still holds the checksum from before.
    rw [Nat.not_lt] at hplace
    have hpayload : ∀ b : UInt8, (front ++ b :: back).drop headerLength =
        front.drop headerLength ++ b :: back :=
      fun b => List.drop_append_of_le_length hplace
    have hheader : header payload = header payload' := by
      have hfirst := congrArg (List.take headerLength) h.parts
      have hsecond := congrArg (List.take headerLength) h'.parts
      rw [List.take_left' (length_header _), List.take_append_of_le_length hplace] at hfirst hsecond
      rw [← hfirst, hsecond]
    have hhash := (header_inj h.fits h'.fits hheader).1
    rw [h.payload_eq, h'.payload_eq, hpayload, hpayload] at hhash
    exact (Crc32.hash_inj_of_byte hhash).symm

/-- What can befall a file: it loses its end, gets more bytes behind it, or one of its bytes is
changed. -/
inductive Damage (file : Bytes) : Bytes → Prop where
  | cut {front : Bytes} (hfront : front <+: file) (hshorter : front ≠ file) : Damage file front
  | lengthened {more : Bytes} (hmore : more ≠ []) : Damage file (file ++ more)
  | changed {front back : Bytes} {old new : UInt8} (hfile : file = front ++ old :: back)
      (hnew : new ≠ old) : Damage file (front ++ new :: back)

theorem Sealed.not_of_damage {file payload damaged payload' : Bytes} (h : Sealed file payload)
    (hdamage : Damage file damaged) : ¬ Sealed damaged payload' := by
  intro h'
  cases hdamage with
  | cut hfront hshorter => exact hshorter (h'.eq_of_front h hfront)
  | lengthened hmore =>
    have hsame := h.eq_of_front h' (List.prefix_append _ _)
    exact hmore (List.self_eq_append_right.mp hsame)
  | changed hfile hnew =>
    subst hfile
    exact hnew (h.byte_eq h')

/-- The checks of the header refuse a save file that was damaged, wherever that is, and do not
refuse the file as it was written. -/
theorem damaged_file_refused {save : SaveData} {file : Bytes} (hfile : save.toBinary = .ok file) :
    (∀ fault, ofBinary file = .error fault → fault = .encoding) ∧
      ∀ damaged, Damage file damaged →
        ∃ fault, fault ≠ .encoding ∧ ofBinary damaged = .error fault := by
  have hsealed := sealed_of_toBinary hfile
  refine ⟨fun fault => hsealed.fault_eq, fun damaged hdamage => ?_⟩
  rcases sealed_or_refused damaged with hstill | hrefused
  · exact absurd hstill (hsealed.not_of_damage hdamage)
  · exact hrefused

/-- A save whose script is `op00`, with the first letter of the name changed to another. -/
theorem damaged_file_refused_name :
    let save : SaveData :=
      { scriptId := ⟨List.replicate 32 7, by decide⟩
        state := { PlayState.new "op00" 5 with memory := #[-1, 300] }
        backlogLength := 12 }
    let front := header (codec.encode save) ++ (codec.encode save).take 58
    let back := (codec.encode save).drop 59
    save.toBinary = .ok (front ++ 0x6f :: back) ∧
      ∃ fault, fault ≠ .encoding ∧ ofBinary (front ++ 0x71 :: back) = .error fault := by
  intro save front back
  have hletter : (codec.encode save).take 58 ++ 0x6f :: back = codec.encode save := by
    decide +kernel
  have hsize : (codec.encode save).length < UInt32.size := by decide +kernel
  have hwritten : save.toBinary = .ok (front ++ 0x6f :: back) := by
    rw [List.append_assoc, hletter]
    exact if_neg (Nat.not_le.mpr hsize)
  exact ⟨hwritten, (damaged_file_refused hwritten).2 _ (.changed rfl (by decide))⟩

end NovelScript.SaveData
