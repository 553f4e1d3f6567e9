import FraudDetection.Proofs.BundleVerification

/-!
# How bundle verification fails

`verify_model_bundle` fails with a `BundleVerificationError`, or something else escapes from it: a
`TypeError` for a fingerprint that is not ASCII, which `hmac.compare_digest` refuses, or for a list or
an object where the name of an artifact should be, which has no hash to look it up by; or what the
host raises where the verifier has no handler, such as the `RecursionError` of a nested value, the
plain `ValueError` of a long number or the `OSError` of a path that is too long.
-/

namespace FraudDetection.Proofs
open FraudDetection.Library
open FraudDetection.Bundle

variable {β : Type} {sha : Sha256 β} {codec : JsonCodec β} {host : Host β} {root : Node PyString β}
  {loaded : List (PyString × PyValue)} {hashes : List (PyString × PyString)}

def IsVerification (err : VerifyError) : Prop := ∃ fault, err = .verification fault

section steps

lemma failsWith_verification (fault : Fault) {α : Type} :
    FailsWith IsVerification (.error (.verification fault) : Except VerifyError α) := .throw ⟨fault, rfl⟩

lemma not_failsWith_escaped (exc : PyException) {α : Type} :
    ¬ FailsWith IsVerification (.error (.escaped exc) : Except VerifyError α) := fun h => nomatch h _ rfl

lemma failsWith_loadMetadata_iff {content : β} : FailsWith IsVerification (loadMetadata codec host content) ↔
    ∀ exc, host.loads content = some exc → exc.isCaught = true := by
  unfold loadMetadata
  cases host.loads content with
  | some exc =>
    simp only [Option.some.injEq, forall_eq']
    cases exc.isCaught with
    | true => exact iff_of_true (failsWith_verification _) rfl
    | false => exact iff_of_false (not_failsWith_escaped exc) nofun
  | none =>
    refine iff_of_true ?_ nofun
    cases codec.loads content with
    | some value => exact .pure value
    | none => exact failsWith_verification _

/-- The metadata of a directory whose `metadata.json` can be read are loaded, or the failure is
wrapped, exactly if neither the way to the file nor `json.loads` raises past the handler. -/
lemma failsWith_readMetadata_iff {content : β} (hroot : ∃ readable entries, root = .dir readable entries)
    (hfile : root.find [metadataName] = some (.file (some content))) :
    FailsWith IsVerification (readMetadata codec host root) ↔
      host.probe = none ∧ ∀ exc, host.loads content = some exc → exc.isCaught = true := by
  obtain ⟨readable, entries, rfl⟩ := hroot
  have hloads : FailsWith IsVerification (loadMetadata codec host content) ↔ _ := failsWith_loadMetadata_iff
  rw [← hloads]
  unfold readMetadata
  cases host.probe with
  | some exc => exact iff_of_false (not_failsWith_escaped exc) fun h => nomatch h.1
  | none =>
    simp only [hfile, true_and]
    cases loadMetadata codec host content with
    | error err => exact ⟨fun h => .throw (h err rfl), fun h => .throw (h err rfl)⟩
    | ok value =>
      refine iff_of_true ?_ (.pure value)
      cases value with
      | dict loaded => exact .pure loaded
      | _ => exact failsWith_verification _

lemma failsWith_checkContract_iff : FailsWith IsVerification (checkContract host loaded) ↔
    (equalsOne (loaded.lookup (text "schema_version")) = false →
      ∀ version, loaded.lookup (text "schema_version") = some version → host.repr version = none) := by
  unfold checkContract
  dsimp only
  cases hone : equalsOne (loaded.lookup (text "schema_version")) with
  | true =>
    refine iff_of_true (fun err herr => ?_) nofun
    simp only [Bool.not_true, Bool.false_eq_true, if_false] at herr
    split_ifs at herr
    cases herr
    exact ⟨_, rfl⟩
  | false =>
    simp only [Bool.not_false, if_true, true_implies]
    cases loaded.lookup (text "schema_version") with
    | none => exact iff_of_true (failsWith_verification _) nofun
    | some version =>
      simp only [Option.bind_some, Option.some.injEq, forall_eq']
      cases host.repr version with
      | none => exact iff_of_true (failsWith_verification _) rfl
      | some exc => exact iff_of_false (not_failsWith_escaped exc) nofun

lemma failsWith_normalizedHashes : FailsWith IsVerification (normalizedHashes loaded) := by
  intro err herr
  unfold normalizedHashes at herr
  repeat' split at herr
  all_goals cases herr
  all_goals exact ⟨_, rfl⟩

lemma failsWith_recordEntry (seen : List PyString × List PyString) (entry : List PyString × Node PyString β) :
    FailsWith IsVerification (recordEntry seen entry) := by
  intro err herr
  unfold recordEntry at herr
  dsimp only at herr
  split at herr
  all_goals cases herr
  all_goals exact ⟨_, rfl⟩

/-- What raises in the listing escapes, unless an entry before it is refused. -/
lemma failsWith_listEntries_iff : FailsWith IsVerification (listEntries host root) ↔
    ∀ exc, (host.rglob root).2 = some exc → ∃ entry ∈ (host.rglob root).1, ¬ IsPlain entry.2 := by
  have hloop : FailsWith IsVerification ((host.rglob root).1.foldlM recordEntry ([], [])) :=
    FailsWith.foldlM failsWith_recordEntry
  unfold listEntries
  cases hfold : (host.rglob root).1.foldlM recordEntry ([], []) with
  | error err =>
    rw [hfold] at hloop
    refine iff_of_true hloop fun _ _ => ?_
    by_contra hplain
    push Not at hplain
    cases hfold.symm.trans ((recordEntry_foldlM _ _ _).mpr ⟨hplain, rfl⟩)
  | ok seen =>
    have hplain := ((recordEntry_foldlM _ _ _).mp hfold).1
    cases (host.rglob root).2 with
    | none => exact iff_of_true (.pure seen) nofun
    | some exc =>
      refine iff_of_false (not_failsWith_escaped exc) fun h => ?_
      obtain ⟨entry, hin, hrefused⟩ := h exc rfl
      exact hrefused (hplain entry hin)

lemma failsWith_checkEntries (names files directories : List PyString) :
    FailsWith IsVerification (checkEntries names files directories) := by
  intro err herr
  unfold checkEntries at herr
  dsimp only at herr
  split_ifs at herr
  all_goals cases herr
  all_goals exact ⟨_, rfl⟩

lemma isAscii_of_hex {digest : PyString} (h : digest.all isHexCharacter = true) : isAscii digest = true := by
  unfold isAscii
  rw [List.all_eq_true] at h ⊢
  intro c hc
  have hhex := h c hc
  simp only [isHexCharacter, Bool.or_eq_true, Bool.and_eq_true, decide_eq_true_eq] at hhex
  rw [decide_eq_true_eq]
  omega

lemma isAscii_of_normalized (h : normalizedHashes loaded = .ok hashes) {artifact : PyString × PyString}
    (hin : artifact ∈ hashes) : isAscii artifact.2 = true := by
  obtain ⟨listed, -, -, hnormalized⟩ := normalizedHashes_ok.mp h
  refine mapM_forall (Q := fun artifact => isAscii artifact.2 = true) (mapM_eq_ok_iff.mpr hnormalized) ?_ artifact hin
  intro entry result hentry
  obtain ⟨name, -, hentry⟩ := bind_eq_ok_iff.mp hentry
  obtain ⟨digest, hdigest, hresult⟩ := bind_eq_ok_iff.mp hentry
  cases hresult
  obtain ⟨-, -, -, -, hhex⟩ := validateSha256_ok hdigest
  exact isAscii_of_hex hhex

lemma compareDigest_of_ascii (sha : Sha256 β) {claimed : PyString} (h : isAscii claimed = true) (data : β) :
    ∃ same, compareDigest claimed (sha.hexdigest data) = .ok same := by
  unfold compareDigest
  rw [h, isAscii_hexdigest, Bool.and_self, if_pos rfl]
  exact ⟨_, rfl⟩

lemma failsWith_checkDigest {artifact : PyString × PyString} (hascii : isAscii artifact.2 = true) :
    FailsWith IsVerification (checkDigest sha root artifact) := by
  intro err herr
  unfold checkDigest at herr
  split at herr
  · rename_i content _
    obtain ⟨same, hsame⟩ := compareDigest_of_ascii sha hascii content
    rw [hsame] at herr
    cases same with
    | true => cases herr
    | false =>
      cases herr
      exact ⟨_, rfl⟩
  · cases herr
    exact ⟨_, rfl⟩

end steps

section lookups

/-- The value has a hash: it is not there, or neither a list nor an object. -/
def hasHash : Option PyValue → Bool
  | some (.list _) | some (.dict _) => false
  | _ => true

lemma failsWith_checkFingerprint_iff : FailsWith IsVerification (checkFingerprint sha codec host loaded) ↔
    ∀ claimed, loaded.lookup fingerprintKey = some (.str claimed) →
      host.dumps (.dict (fingerprintPayload loaded)) = none ∧ isAscii claimed = true := by
  unfold checkFingerprint fingerprint
  split
  · rename_i claimed hclaimed
    rw [hclaimed]
    simp only [PyValue.str, Option.some.injEq, PyValue.scalar.injEq, Scalar.str.injEq, forall_eq']
    cases host.dumps (.dict (fingerprintPayload loaded)) with
    | some exc => exact iff_of_false (not_failsWith_escaped exc) fun h => nomatch h.1
    | none =>
      dsimp only
      rw [and_iff_right rfl]
      by_cases hascii : isAscii claimed = true
      · obtain ⟨same, hsame⟩ := compareDigest_of_ascii sha hascii
          (codec.compact (PyValue.dict (fingerprintPayload loaded)).sortKeys)
        rw [hsame]
        cases same with
        | true => exact iff_of_true (.pure ()) hascii
        | false => exact iff_of_true (failsWith_verification _) hascii
      · have hrefused : ∀ digest, compareDigest claimed digest = .error (.escaped .typeError) := by
          intro digest
          rw [compareDigest, if_neg (by simp [hascii])]
        rw [hrefused]
        exact iff_of_false (not_failsWith_escaped _) hascii
  · rename_i hother
    exact iff_of_true (failsWith_verification _) fun claimed hclaimed => absurd hclaimed (hother claimed)

lemma failsWith_checkCovered_iff {key : PyString} : FailsWith IsVerification (checkCovered loaded hashes key) ↔
    hasHash (loaded.lookup key) = true := by
  unfold checkCovered
  split
  · rename_i name hname
    rw [hname]
    refine iff_of_true (fun err herr => ?_) rfl
    split_ifs at herr
    cases herr
    exact ⟨_, rfl⟩
  · rename_i items hitems
    rw [hitems]
    exact iff_of_false (not_failsWith_escaped _) nofun
  · rename_i entries hentries
    rw [hentries]
    exact iff_of_false (not_failsWith_escaped _) nofun
  · rename_i hlist hdict
    refine iff_of_true (failsWith_verification _) ?_
    unfold hasHash
    split
    · exact absurd ‹_› (hlist _)
    · exact absurd ‹_› (hdict _)
    · rfl

/-- The metadata passes every check before the names of the two artifacts are looked up among the
normalized digests `hashes`. -/
structure ReachesLookups (sha : Sha256 β) (codec : JsonCodec β) (loaded : List (PyString × PyValue))
    (hashes : List (PyString × PyString)) : Prop where
  fingerprint : loaded.lookup fingerprintKey = some (.str (fingerprint sha codec (fingerprintPayload loaded)))
  schema : equalsOne (loaded.lookup (text "schema_version")) = true
  dtype : equalsText (loaded.lookup (text "input_dtype")) (text "float32") = true
  device : equalsText (loaded.lookup (text "export_device")) (text "cpu") = true
  exported : equalsText (loaded.lookup (text "export_dtype")) (text "float32") = true
  artifacts : ∃ listed, loaded.lookup (text "artifact_sha256") = some (.dict listed) ∧ listed ≠ [] ∧
    listed.map normalizeArtifact = hashes.map .ok

def Covered (loaded : List (PyString × PyValue)) (hashes : List (PyString × PyString)) (key : PyString) : Prop :=
  ∃ name ∈ hashes.map Prod.fst, loaded.lookup key = some (.str name)

/-- The metadata on which the verifier has one failure mode: a fingerprint that is a string is ASCII
and the rest of the metadata can be encoded, a wrong version can be shown, the artifact names have a
hash if they are looked up, which the second is only if the first is there, and what raises in the
listing of the directory comes behind an entry that is refused. -/
structure FailsAlike (sha : Sha256 β) (codec : JsonCodec β) (host : Host β) (root : Node PyString β)
    (loaded : List (PyString × PyValue)) : Prop where
  fingerprint : ∀ claimed, loaded.lookup fingerprintKey = some (.str claimed) →
    host.dumps (.dict (fingerprintPayload loaded)) = none ∧ isAscii claimed = true
  version : loaded.lookup fingerprintKey = some (.str (Bundle.fingerprint sha codec (fingerprintPayload loaded))) →
    equalsOne (loaded.lookup (text "schema_version")) = false →
    ∀ version, loaded.lookup (text "schema_version") = some version → host.repr version = none
  onnx : ∀ hashes, ReachesLookups sha codec loaded hashes → hasHash (loaded.lookup (text "onnx_file")) = true
  state : ∀ hashes, ReachesLookups sha codec loaded hashes → Covered loaded hashes (text "onnx_file") →
    hasHash (loaded.lookup (text "state_dict_file")) = true
  listing : ∀ hashes, ReachesLookups sha codec loaded hashes → Covered loaded hashes (text "onnx_file") →
    Covered loaded hashes (text "state_dict_file") →
    ∀ exc, (host.rglob root).2 = some exc → ∃ entry ∈ (host.rglob root).1, ¬ IsPlain entry.2

lemma checkContract_ok : checkContract host loaded = .ok () ↔
    equalsOne (loaded.lookup (text "schema_version")) = true ∧
    equalsText (loaded.lookup (text "input_dtype")) (text "float32") = true ∧
    equalsText (loaded.lookup (text "export_device")) (text "cpu") = true ∧
    equalsText (loaded.lookup (text "export_dtype")) (text "float32") = true := by
  unfold checkContract
  dsimp only
  rw [← and_assoc (a := equalsText _ _ = true), ← Bool.and_eq_true, ← Bool.and_eq_true]
  split_ifs with hschema hfloat
  · refine iff_of_false ?_ fun h => by simp [h.1] at hschema
    split <;> exact nofun
  · exact iff_of_false nofun fun h => by simp [h.2] at hfloat
  · simp only [Bool.not_eq_true', Bool.not_eq_false] at hschema hfloat
    exact iff_of_true rfl ⟨hschema, hfloat⟩

lemma reachesLookups_iff (hdumps : host.dumps (.dict (fingerprintPayload loaded)) = none) :
    ReachesLookups sha codec loaded hashes ↔ checkFingerprint sha codec host loaded = .ok () ∧
      checkContract host loaded = .ok () ∧ normalizedHashes loaded = .ok hashes := by
  rw [checkFingerprint_ok, and_iff_right hdumps, checkContract_ok, normalizedHashes_ok]
  constructor
  · rintro ⟨hfingerprint, hschema, hdtype, hdevice, hexported, hartifacts⟩
    exact ⟨hfingerprint, ⟨hschema, hdtype, hdevice, hexported⟩, hartifacts⟩
  · rintro ⟨hfingerprint, ⟨hschema, hdtype, hdevice, hexported⟩, hartifacts⟩
    exact ⟨hfingerprint, hschema, hdtype, hdevice, hexported, hartifacts⟩

end lookups

section verifier

variable {tree : BundleTree β}

def verifyFiles (sha : Sha256 β) (host : Host β) (root : Node PyString β) (loaded : List (PyString × PyValue))
    (hashes : List (PyString × PyString)) : Except VerifyError PyValue := do
  let seen ← listEntries host root
  checkEntries (hashes.map Prod.fst) seen.1 seen.2
  hashes.forM (checkDigest sha root)
  return .dict loaded

lemma failsWith_verifyFiles_iff (hhashes : normalizedHashes loaded = .ok hashes) :
    FailsWith IsVerification (verifyFiles sha host root loaded hashes) ↔
      ∀ exc, (host.rglob root).2 = some exc → ∃ entry ∈ (host.rglob root).1, ¬ IsPlain entry.2 := by
  unfold verifyFiles
  rw [failsWith_bind_iff, failsWith_listEntries_iff]
  refine and_iff_left fun seen _ => ?_
  refine FailsWith.bind (failsWith_checkEntries _ _ _) fun _ _ => ?_
  refine FailsWith.bind (FailsWith.forM fun artifact hin => ?_) fun _ _ => .pure _
  exact failsWith_checkDigest (isAscii_of_normalized hhashes hin)

/-- The steps behind the metadata, one condition for each that can let something escape. -/
lemma failsWith_checks_iff : FailsWith IsVerification (do
      checkFingerprint sha codec host loaded
      checkContract host loaded
      let hashes ← normalizedHashes loaded
      checkCovered loaded hashes (text "onnx_file")
      checkCovered loaded hashes (text "state_dict_file")
      verifyFiles sha host root loaded hashes) ↔ FailsAlike sha codec host root loaded := by
  constructor
  · intro h
    obtain ⟨hclaimed, h⟩ := failsWith_bind_iff.mp h
    have hfingerprint := failsWith_checkFingerprint_iff.mp hclaimed
    have hpast : loaded.lookup fingerprintKey = some (.str (fingerprint sha codec (fingerprintPayload loaded))) →
        host.dumps (.dict (fingerprintPayload loaded)) = none ∧ checkFingerprint sha codec host loaded = .ok () := by
      intro hright
      have hdumps := (hfingerprint _ hright).1
      exact ⟨hdumps, checkFingerprint_ok.mpr ⟨hdumps, hright⟩⟩
    have hlookups : ∀ hashes, ReachesLookups sha codec loaded hashes → normalizedHashes loaded = .ok hashes ∧
        FailsWith IsVerification (do
          checkCovered loaded hashes (text "onnx_file")
          checkCovered loaded hashes (text "state_dict_file")
          verifyFiles sha host root loaded hashes) := by
      intro hashes hreaches
      obtain ⟨hpassed, hcontract, hhashes⟩ := (reachesLookups_iff (hpast hreaches.fingerprint).1).mp hreaches
      have hrest := (failsWith_bind_iff.mp (h () hpassed)).2 () hcontract
      exact ⟨hhashes, (failsWith_bind_iff.mp hrest).2 hashes hhashes⟩
    refine ⟨hfingerprint, fun hright => ?_, fun hashes hreaches => ?_, fun hashes hreaches honnx => ?_,
      fun hashes hreaches honnx hstate => ?_⟩
    · exact failsWith_checkContract_iff.mp (failsWith_bind_iff.mp (h () (hpast hright).2)).1
    · exact failsWith_checkCovered_iff.mp (failsWith_bind_iff.mp (hlookups hashes hreaches).2).1
    · have hsecond := (failsWith_bind_iff.mp (hlookups hashes hreaches).2).2 () (checkCovered_ok.mpr honnx)
      exact failsWith_checkCovered_iff.mp (failsWith_bind_iff.mp hsecond).1
    · obtain ⟨hhashes, hfirst⟩ := hlookups hashes hreaches
      have hsecond := (failsWith_bind_iff.mp hfirst).2 () (checkCovered_ok.mpr honnx)
      have hfiles := (failsWith_bind_iff.mp hsecond).2 () (checkCovered_ok.mpr hstate)
      exact (failsWith_verifyFiles_iff hhashes).mp hfiles
  · intro h
    refine FailsWith.bind (failsWith_checkFingerprint_iff.mpr h.fingerprint) fun _ hfingerprint => ?_
    obtain ⟨hdumps, hright⟩ := checkFingerprint_ok.mp hfingerprint
    refine FailsWith.bind (failsWith_checkContract_iff.mpr (h.version hright)) fun _ hcontract => ?_
    refine FailsWith.bind failsWith_normalizedHashes fun hashes hhashes => ?_
    have hreaches := (reachesLookups_iff hdumps).mpr ⟨hfingerprint, hcontract, hhashes⟩
    refine FailsWith.bind (failsWith_checkCovered_iff.mpr (h.onnx hashes hreaches)) fun _ honnx => ?_
    have hcovered := checkCovered_ok.mp honnx
    refine FailsWith.bind (failsWith_checkCovered_iff.mpr (h.state hashes hreaches hcovered)) fun _ hstate => ?_
    exact (failsWith_verifyFiles_iff hhashes).mpr (h.listing hashes hreaches hcovered (checkCovered_ok.mp hstate))

lemma failsWith_verify_iff : FailsWith IsVerification (verifyModelBundle sha codec host tree) ↔
    FailsWith IsVerification (readMetadata codec host tree.root) ∧
      ∀ loaded, readMetadata codec host tree.root = .ok loaded → FailsAlike sha codec host tree.root loaded := by
  simp only [← failsWith_checks_iff]
  exact failsWith_bind_iff

/-- For a directory with a `metadata.json` that is JSON, the verifier returns the metadata or raises
a `BundleVerificationError`, exactly if the way to the metadata raises nothing, `json.loads` raises
nothing or what the handler catches, and the metadata, if they are loaded and an object, fail alike. -/
theorem verification_fails_alike_iff (sha : Sha256 β) (codec : JsonCodec β) (host : Host β) (tree : BundleTree β)
    (content : β) (value : PyValue) (hroot : ∃ readable entries, tree.root = .dir readable entries)
    (hfile : tree.root.find [metadataName] = some (.file (some content))) (hloads : codec.loads content = some value) :
    (verifyModelBundle sha codec host tree = .ok value ∨
      ∃ fault, verifyModelBundle sha codec host tree = .error (.verification fault)) ↔
    host.probe = none ∧ (∀ exc, host.loads content = some exc → exc.isCaught = true) ∧
      ∀ loaded, host.loads content = none → value = .dict loaded → FailsAlike sha codec host tree.root loaded := by
  have hread : ∀ loaded, readMetadata codec host tree.root = .ok loaded ↔
      host.probe = none ∧ host.loads content = none ∧ value = .dict loaded := by
    intro loaded
    rw [readMetadata_ok, and_iff_right hroot, hfile]
    simp only [Option.some.injEq, Node.file.injEq, exists_eq_left', hloads]
  have hcondition : FailsWith IsVerification (verifyModelBundle sha codec host tree) ↔
      host.probe = none ∧ (∀ exc, host.loads content = some exc → exc.isCaught = true) ∧
        ∀ loaded, host.loads content = none → value = .dict loaded → FailsAlike sha codec host tree.root loaded := by
    rw [failsWith_verify_iff, failsWith_readMetadata_iff hroot hfile, and_assoc]
    refine and_congr_right fun hprobe => and_congr_right fun _ => forall_congr' fun loaded => ?_
    rw [hread, and_iff_right hprobe, and_imp]
  rw [← hcondition]
  cases hverify : verifyModelBundle sha codec host tree with
  | ok result =>
    obtain ⟨loaded, hloaded, -, -, -, -, -, -, -, -, -, -, rfl⟩ := verify_ok_iff.mp hverify
    rw [((hread loaded).mp hloaded).2.2]
    exact iff_of_true (.inl rfl) (FailsWith.pure _)
  | error err =>
    constructor
    · rintro (h | ⟨fault, hfault⟩) err' herr
      · cases h
      · cases herr
        exact ⟨fault, Except.error.inj hfault⟩
    · intro h
      obtain ⟨fault, rfl⟩ := h err rfl
      exact .inr ⟨fault, rfl⟩

/-- The bundle with an artifact in a directory of its own has names and a fingerprint that do. -/
theorem verification_fails_alike_nested :
    verifyModelBundle sampleSha sampleCodec (calmHost _) sampleTree =
        .ok (sampleMetadata.toDict sampleSha sampleCodec).sortKeys ∨
      ∃ fault, verifyModelBundle sampleSha sampleCodec (calmHost _) sampleTree = .error (.verification fault) := by
  refine (verification_fails_alike_iff sampleSha sampleCodec (calmHost _) sampleTree
    (sampleMetadata.written sampleSha sampleCodec) _ ⟨true, sampleEntries, rfl⟩ rfl rfl).mpr ⟨rfl, nofun, ?_⟩
  intro loaded _ hloaded
  cases hloaded
  refine ⟨fun claimed hclaimed => ⟨rfl, ?_⟩, fun _ _ _ _ => rfl, fun _ _ => by rfl, fun _ _ _ => by rfl, nofun⟩
  have hzeros : claimed = List.replicate 64 48 := by
    cases hclaimed
    rfl
  rw [hzeros]
  rfl

lemma isComponent_metadataName : IsComponent metadataName := by decide

def metadataTree (value : PyValue) : BundleTree SampleContent where
  root := .dir true [(metadataName, .file (some (.json value)))]
  unique := Node.everyDirectory_dir (List.nodup_singleton _) fun entry hentry => by
    obtain rfl := List.mem_singleton.mp hentry
    exact Node.everyDirectory_file _ _
  named := Node.everyDirectory_dir (List.forall_mem_singleton.mpr isComponent_metadataName) fun entry hentry => by
    obtain rfl := List.mem_singleton.mp hentry
    exact Node.everyDirectory_file _ _

/-- Metadata whose fingerprint is right and whose `onnx_file` is an empty list. -/
def listedOnnx : PyValue :=
  .dict [(fingerprintKey, .str (List.replicate 64 48)), (text "schema_version", .scalar (.int 1)),
    (text "input_dtype", .str (text "float32")), (text "export_device", .str (text "cpu")),
    (text "export_dtype", .str (text "float32")),
    (text "artifact_sha256", .dict [(text "model.pt", .str (List.replicate 64 98))]), (text "onnx_file", .list [])]

/-- On a host that raises nothing, a fingerprint of one letter with an accent and an `onnx_file` that
is a list raise a `TypeError`. -/
theorem verification_raises_typeError :
    verifyModelBundle sampleSha sampleCodec (calmHost _) (metadataTree (.dict [(fingerprintKey, .str [233])])) =
      .error (.escaped .typeError) ∧
    verifyModelBundle sampleSha sampleCodec (calmHost _) (metadataTree listedOnnx) = .error (.escaped .typeError) :=
  ⟨by rfl, by rfl⟩

end verifier

end FraudDetection.Proofs
