import Gatehouse.Proofs.Secret.Opening
import Gatehouse.Proofs.Text.Lossy

/-!
# Nothing else can be opened

`opens_exactly_what_it_seals`: a box opens what it has sealed, with or without white space around it, and
whatever it opens is what it seals the result to under some nonce. What it cannot open it takes as it is.

Proof. The way from the stored text to the plain one is a chain of readings, of Base64, of the sealed
bytes and of UTF-8, and each of them is only read from what its writer writes
(`Base64.encodeChars_of_decodeChars?`, `Crypto.Aead.sealText_of_open?`, `Text.utf8_of_ofUtf8?`).
-/

namespace Gatehouse

/-! ### The sealed bytes -/

namespace Crypto

theorem ChaCha20.length_applyBlocks (key nonce : Bytes) (n : Nat) :
    ∀ (counter : Nat) (text : Bytes), text.length ≤ n →
      (applyBlocks key nonce counter (Bytes.blocks 64 text)).length = text.length := by
  induction n with
  | zero =>
    intro counter text hlength
    rw [List.length_eq_zero_iff.mp (Nat.le_zero.mp hlength), applyBlocks_nil]
  | succ n ih =>
    intro counter text hlength
    by_cases hnil : text = []
    · rw [hnil, applyBlocks_nil]
    · have hpos := List.length_pos_iff.mpr hnil
      rw [applyBlocks_eq key nonce counter hnil, List.length_append, List.length_zipWith, length_block,
        ih (counter + 1) (text.drop 64) (by rw [List.length_drop]; omega), List.length_take,
        List.length_drop]
      omega

theorem ChaCha20.length_apply (key nonce text : Bytes) : (apply key nonce text).length = text.length :=
  length_applyBlocks key nonce text.length 1 text (Nat.le_refl _)

/-- Only what has been sealed under the same key and nonce is opened. -/
theorem Aead.sealText_of_open? {key nonce sealedText text : Bytes}
    (h : open? key nonce sealedText = some text) : sealText key nonce text = sealedText := by
  unfold open? at h
  dsimp only at h
  split_ifs at h with htag
  obtain rfl := Option.some.inj h
  rw [sealText, ChaCha20.apply_apply, ← htag, List.take_append_drop]

end Crypto

/-! ### The box -/

namespace SecretBox

/-- White space around a stored value does not count. -/
theorem decrypt_congr (key : Bytes) {stored stored' : String} (h : Text.trim stored = Text.trim stored') :
    (⟨some key⟩ : SecretBox).decrypt stored = (⟨some key⟩ : SecretBox).decrypt stored' := by
  have hchars : Text.trimChars stored.toList = Text.trimChars stored'.toList := String.ofList_inj.mp h
  unfold decrypt
  rw [hchars]

theorem trim_encode_between {bytes : Bytes} (hne : bytes ≠ []) {before after : String}
    (hbefore : Text.isBlankText before = true) (hafter : Text.isBlankText after = true) :
    Text.trim (before ++ Base64.encode bytes ++ after) = Base64.encode bytes := by
  have hchars : Base64.encodeChars bytes ≠ [] := by
    intro hnil
    have hback := Base64.decodeChars?_encodeChars bytes
    rw [hnil] at hback
    exact hne (Option.some.inj hback).symm
  rw [Text.trim, Base64.encode, (Text.trimChars_eq_iff hchars Base64.isBlank_of_mem_encodeChars).mpr]
  refine ⟨before.toList, after.toList, List.all_eq_true.mp hbefore, List.all_eq_true.mp hafter, ?_⟩
  rw [String.toList_append, String.toList_append, String.toList_ofList]

theorem decrypt_encrypt_between (key : Bytes) {nonce : Bytes}
    (hnonce : nonce.length = Crypto.Aead.nonceLength) (plain : String) {before after : String}
    (hbefore : Text.isBlankText before = true) (hafter : Text.isBlankText after = true) :
    (⟨some key⟩ : SecretBox).decrypt (before ++ (⟨some key⟩ : SecretBox).encrypt nonce plain ++ after) =
      .ok plain := by
  have hne : nonce ++ Crypto.Aead.sealText key nonce (Text.utf8 plain) ≠ [] := by
    intro hnil
    rw [(List.append_eq_nil_iff.mp hnil).1] at hnonce
    exact absurd hnonce (by decide)
  have htrim : Text.trim (Base64.encode (nonce ++ Crypto.Aead.sealText key nonce (Text.utf8 plain))) =
      Base64.encode (nonce ++ Crypto.Aead.sealText key nonce (Text.utf8 plain)) := by
    simpa using @trim_encode_between _ hne "" "" rfl rfl
  rw [← decrypt_encrypt ⟨some key⟩ hnonce plain]
  apply decrypt_congr
  rw [encrypt]
  dsimp only
  rw [trim_encode_between hne hbefore hafter, htrim]

/-- What is opened has been sealed under the nonce that it starts with. -/
theorem encrypt_of_decrypt {key : Bytes} {stored plain : String}
    (h : (⟨some key⟩ : SecretBox).decrypt stored = .ok plain) :
    ∃ nonce : Bytes, nonce.length = Crypto.Aead.nonceLength ∧
      Text.trim stored = (⟨some key⟩ : SecretBox).encrypt nonce plain := by
  unfold decrypt at h
  dsimp only at h
  split at h
  · cases h
  · next bytes hbytes =>
    split_ifs at h with hshort
    split at h
    · cases h
    · next opened hopened =>
      split at h
      · cases h
      · next text htext =>
        obtain rfl := Except.ok.inj h
        refine ⟨bytes.take Crypto.Aead.nonceLength, ?_, ?_⟩
        · rw [List.length_take]
          omega
        · rw [encrypt]
          dsimp only
          rw [Text.utf8_of_ofUtf8? htext, Crypto.Aead.sealText_of_open? hopened, List.take_append_drop,
            Base64.encode, Base64.encodeChars_of_decodeChars? hbytes, Text.trim]

/-- A sealed value is the writing of its nonce, of the enciphered text, as long as the plain one, and of a
tag. -/
theorem encrypt_parts (key nonce : Bytes) (plain : String) :
    ∃ enciphered tag : Bytes, enciphered.length = (Text.utf8 plain).length ∧
      tag.length = Crypto.Aead.tagLength ∧
      (⟨some key⟩ : SecretBox).encrypt nonce plain = Base64.encode (nonce ++ enciphered ++ tag) := by
  refine ⟨Crypto.ChaCha20.apply key nonce (Text.utf8 plain),
    Crypto.Aead.tag key nonce (Crypto.ChaCha20.apply key nonce (Text.utf8 plain)),
    Crypto.ChaCha20.length_apply _ _ _, Crypto.Aead.length_tag _ _ _, ?_⟩
  rw [List.append_assoc]
  rfl

theorem decryptOrRaw_of_ok {box : SecretBox} {stored plain : String} (h : box.decrypt stored = .ok plain) :
    box.decryptOrRaw stored = plain := by
  rw [decryptOrRaw, h]

/-- What is not taken as it is has been opened. -/
theorem decrypt_of_decryptOrRaw_ne {box : SecretBox} {stored : String} (h : box.decryptOrRaw stored ≠ stored) :
    box.decrypt stored = .ok (box.decryptOrRaw stored) := by
  unfold decryptOrRaw at h ⊢
  split at h
  · next plain hplain => rw [hplain]
  · exact absurd rfl h

/-- Under a secret that is not empty, a box opens each text that it has sealed, whatever white space is
around it; a stored value that opens is, without that white space, the writing of a nonce, of the
enciphered text and of its tag, and it is what the result is sealed to under that nonce. Any other value is
taken as it is. The disabled box changes nothing. -/
theorem opens_exactly_what_it_seals {secret : String} (hsecret : secret ≠ "") :
    (∀ (nonce : Bytes) (plain before after : String), nonce.length = Crypto.Aead.nonceLength →
      Text.isBlankText before = true → Text.isBlankText after = true →
      (ofSecret secret).decrypt (before ++ (ofSecret secret).encrypt nonce plain ++ after) = .ok plain ∧
      (ofSecret secret).decryptOrRaw (before ++ (ofSecret secret).encrypt nonce plain ++ after) = plain) ∧
    (∀ stored plain : String, (ofSecret secret).decrypt stored = .ok plain →
      ∃ nonce enciphered tag : Bytes, nonce.length = Crypto.Aead.nonceLength ∧
        enciphered.length = (Text.utf8 plain).length ∧ tag.length = Crypto.Aead.tagLength ∧
        Text.trim stored = Base64.encode (nonce ++ enciphered ++ tag) ∧
        Text.trim stored = (ofSecret secret).encrypt nonce plain) ∧
    (∀ stored : String, (ofSecret secret).decryptOrRaw stored ≠ stored →
      ∃ (nonce : Bytes) (plain : String), nonce.length = Crypto.Aead.nonceLength ∧
        Text.trim stored = (ofSecret secret).encrypt nonce plain) ∧
    (ofSecret "" = disabled ∧ ∀ (nonce : Bytes) (text : String), disabled.encrypt nonce text = text ∧
      disabled.decrypt text = .ok text ∧ disabled.decryptOrRaw text = text) := by
  have hkey : ofSecret secret = ⟨some (Crypto.Sha256.digest (Text.utf8 secret))⟩ := if_neg hsecret
  rw [hkey]
  refine ⟨?_, ?_, ?_, rfl, fun _ _ => ⟨rfl, rfl, rfl⟩⟩
  · intro nonce plain before after hnonce hbefore hafter
    have hopens := decrypt_encrypt_between (Crypto.Sha256.digest (Text.utf8 secret)) hnonce plain hbefore hafter
    exact ⟨hopens, decryptOrRaw_of_ok hopens⟩
  · intro stored plain hopens
    obtain ⟨nonce, hnonce, htrim⟩ := encrypt_of_decrypt hopens
    obtain ⟨enciphered, tag, henciphered, htag, hparts⟩ :=
      encrypt_parts (Crypto.Sha256.digest (Text.utf8 secret)) nonce plain
    exact ⟨nonce, enciphered, tag, hnonce, henciphered, htag, htrim.trans hparts, htrim⟩
  · intro stored hraw
    obtain ⟨nonce, hnonce, htrim⟩ := encrypt_of_decrypt (decrypt_of_decryptOrRaw_ne hraw)
    exact ⟨nonce, _, hnonce, htrim⟩

/-- A password that was sealed and then copied with white space around it is opened, and what is opened, or
not taken as it is, was sealed. -/
theorem opens_exactly_what_it_seals_copied : ∃ stored : String,
    stored = " " ++ (ofSecret "0123456789abcdef").encrypt (List.replicate 12 7) "hunter2" ++ "\n" ∧
    "0123456789abcdef" ≠ "" ∧ (ofSecret "0123456789abcdef").decrypt stored = .ok "hunter2" ∧
    (ofSecret "0123456789abcdef").decryptOrRaw stored ≠ stored ∧
    (∃ nonce : Bytes, nonce.length = Crypto.Aead.nonceLength ∧
      Text.trim stored = (ofSecret "0123456789abcdef").encrypt nonce "hunter2") ∧
    ∃ (nonce : Bytes) (plain : String), nonce.length = Crypto.Aead.nonceLength ∧
      Text.trim stored = (ofSecret "0123456789abcdef").encrypt nonce plain := by
  have hsecret : "0123456789abcdef" ≠ "" := by decide
  obtain ⟨hopens, hraw⟩ := (opens_exactly_what_it_seals hsecret).1 (List.replicate 12 7) "hunter2" " " "\n" rfl
    (by decide) (by decide)
  have hspaced : ∀ text : String, "hunter2" ≠ " " ++ text ++ "\n" := by
    intro text h
    have hhead := congrArg (fun text => text.toList.head?) h
    simp at hhead
  have hchanged : (ofSecret "0123456789abcdef").decryptOrRaw
      (" " ++ (ofSecret "0123456789abcdef").encrypt (List.replicate 12 7) "hunter2" ++ "\n") ≠
        " " ++ (ofSecret "0123456789abcdef").encrypt (List.replicate 12 7) "hunter2" ++ "\n" := by
    rw [hraw]
    exact hspaced _
  obtain ⟨nonce, _, _, hnonce, -, -, -, hsealed⟩ := (opens_exactly_what_it_seals hsecret).2.1 _ _ hopens
  exact ⟨_, rfl, hsecret, hopens, hchanged, ⟨nonce, hnonce, hsealed⟩,
    (opens_exactly_what_it_seals hsecret).2.2.1 _ hchanged⟩

end SecretBox

end Gatehouse
