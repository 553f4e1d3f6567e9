import FraudDetection.Library.FileTree
import FraudDetection.Library.PyValues

/-!
# Model bundles

`training/bundle.py`: the metadata of a bundle, how it is written and how a directory is verified
against it. SHA-256 and the two layouts of `json.dumps` are parameters, over any type `β` of file
contents, which are byte strings in the program. Strings are code points and a path is a list of
names, as on a POSIX system; a dict lists its entries in their order. `JsonCodec` and the directory
tree are what texts and directories mean; where the interpreter or the operating system refuse an
operation on them is a parameter of its own, `Host`. Memory is taken to suffice.
-/

namespace FraudDetection.Bundle
open FraudDetection.Library

variable {β : Type}

structure Sha256 (β : Type) where
  digest : β → Vector (Fin 16) 64

def hexDigit (d : Fin 16) : Nat := if d.val < 10 then 48 + d.val else 87 + d.val

def Sha256.hexdigest (sha : Sha256 β) (data : β) : PyString := (sha.digest data).toList.map hexDigit

/-- The encoded results of `json.dumps` with `separators=(",", ":")` and of `json.dump` with
`indent=2` and a final newline, for a value whose keys are in order, and `json.loads` of a decoded
text. -/
structure JsonCodec (β : Type) where
  compact : PyValue → β
  indented : PyValue → β
  loads : β → Option PyValue
  loads_indented : ∀ value, value.isJson = true → loads (indented value) = some value

inductive ValueError where
  | digestNotString (name : PyString)
  | invalidDigest (name : PyString)
  | invalidPath (name : PyString)
  | metadataHashed
  | emptyName
  | unsupportedSchema (version : Int)
  | notCpuFloat32
  | missingDigests (names : List PyString)
  deriving DecidableEq

/-- `str.lower`; no character outside ASCII lowers to a hexadecimal digit, so these stay. -/
def lower (s : PyString) : PyString := s.map fun c => if 65 ≤ c ∧ c ≤ 90 then c + 32 else c

def isHexCharacter (c : Nat) : Bool := (48 ≤ c && c ≤ 57) || (97 ≤ c && c ≤ 102)

def validateSha256 (name : PyString) (digest : PyValue) : Except ValueError PyString :=
  match digest with
  | .scalar (.str digest) =>
    let normalized := lower digest
    if normalized.length ≠ 64 ∨ !normalized.all isHexCharacter then .error (.invalidDigest name)
    else .ok normalized
  | _ => .error (.digestNotString name)

def backslash : Nat := 92

def metadataName : PyString := text "metadata.json"

def validateArtifactName (name : PyString) : Except ValueError PyString :=
  if name = [] ∨ backslash ∈ name then .error (.invalidPath name)
  else
    let artifact := PurePosixPath.parse name
    if artifact.isAbsolute ∨ artifact.asPosix ≠ name ∨
        artifact.parts.any fun part => part = [] ∨ part = text "." ∨ part = text ".." then
      .error (.invalidPath name)
    else if name = metadataName then .error .metadataHashed
    else .ok name

def normalizeArtifact (entry : PyString × PyValue) : Except ValueError (PyString × PyString) := do
  let name ← validateArtifactName entry.1
  let digest ← validateSha256 name entry.2
  return (name, digest)

def fingerprint (sha : Sha256 β) (codec : JsonCodec β) (payload : List (PyString × PyValue)) : PyString :=
  sha.hexdigest (codec.compact (PyValue.dict payload).sortKeys)

section freeze

mutual

def freezeJson : PyValue → PyValue
  | .dict entries => .proxy (freezeEntries entries)
  | .proxy entries => .proxy (freezeEntries entries)
  | .list items => .tuple (freezeItems items)
  | value => value

def freezeItems : List PyValue → List PyValue
  | [] => []
  | item :: items => freezeJson item :: freezeItems items

def freezeEntries : List (PyString × PyValue) → List (PyString × PyValue)
  | [] => []
  | (key, item) :: entries => (key, freezeJson item) :: freezeEntries entries

end

mutual

def thawJson : PyValue → PyValue
  | .dict entries => .dict (thawEntries entries)
  | .proxy entries => .dict (thawEntries entries)
  | .tuple items => .list (thawItems items)
  | value => value

def thawItems : List PyValue → List PyValue
  | [] => []
  | item :: items => thawJson item :: thawItems items

def thawEntries : List (PyString × PyValue) → List (PyString × PyValue)
  | [] => []
  | (key, item) :: entries => (key, thawJson item) :: thawEntries entries

end

end freeze

section metadata

structure TransactionTransformerConfig where
  contextLength : Int
  featureWidth : Int
  hiddenSize : Int
  numHeads : Int
  numLayers : Int
  feedforwardSize : Int
  explanationWidth : Int
  dropout : Ieee ℚ

def TransactionTransformerConfig.asdict (config : TransactionTransformerConfig) : PyValue :=
  .dict [(text "context_length", .scalar (.int config.contextLength)),
    (text "feature_width", .scalar (.int config.featureWidth)),
    (text "hidden_size", .scalar (.int config.hiddenSize)),
    (text "num_heads", .scalar (.int config.numHeads)),
    (text "num_layers", .scalar (.int config.numLayers)),
    (text "feedforward_size", .scalar (.int config.feedforwardSize)),
    (text "explanation_width", .scalar (.int config.explanationWidth)),
    (text "dropout", .scalar (.float config.dropout))]

def bundleSchemaVersion : Int := 1

structure ModelBundleMetadata where
  modelName : PyString
  modelVersion : PyString
  modelConfig : TransactionTransformerConfig
  artifactSha256 : List (PyString × PyValue)
  schemaVersion : Int := bundleSchemaVersion
  inputName : PyString := text "transaction_history"
  inputDtype : PyString := text "float32"
  exportDevice : PyString := text "cpu"
  exportDtype : PyString := text "float32"
  fp8Calibration : PyValue := .scalar .none
  onnxFile : PyString := text "model.onnx"
  stateDictFile : PyString := text "model.pt"

/-- `__post_init__`, which normalizes the digests and freezes the calibration; `None` freezes to
itself. -/
def ModelBundleMetadata.postInit (m : ModelBundleMetadata) : Except ValueError ModelBundleMetadata :=
  if m.modelName = [] ∨ m.modelVersion = [] then .error .emptyName
  else if m.schemaVersion ≠ bundleSchemaVersion then .error (.unsupportedSchema m.schemaVersion)
  else if m.inputDtype ≠ text "float32" ∨ m.exportDevice ≠ text "cpu" ∨ m.exportDtype ≠ text "float32" then
    .error .notCpuFloat32
  else
    let missing := [m.onnxFile, m.stateDictFile].filter fun name => name ∉ m.artifactSha256.map Prod.fst
    if missing ≠ [] then .error (.missingDigests missing)
    else do
      let normalized ← m.artifactSha256.mapM normalizeArtifact
      return { m with
        artifactSha256 := normalized.map fun entry => (entry.1, .str entry.2)
        fp8Calibration := freezeJson m.fp8Calibration }

def fingerprintKey : PyString := text "bundle_fingerprint"

def ModelBundleMetadata.payload (m : ModelBundleMetadata) : List (PyString × PyValue) :=
  [(text "schema_version", .scalar (.int m.schemaVersion)),
    (text "model_name", .str m.modelName),
    (text "model_version", .str m.modelVersion),
    (text "model_config", m.modelConfig.asdict),
    (text "artifact_sha256", .dict (stableSort Prod.fst m.artifactSha256)),
    (text "input_name", .str m.inputName),
    (text "input_dtype", .str m.inputDtype),
    (text "export_device", .str m.exportDevice),
    (text "export_dtype", .str m.exportDtype),
    (text "fp8_calibration", thawJson m.fp8Calibration),
    (text "onnx_file", .str m.onnxFile),
    (text "state_dict_file", .str m.stateDictFile)]

def ModelBundleMetadata.toDict (sha : Sha256 β) (codec : JsonCodec β) (m : ModelBundleMetadata) : PyValue :=
  .dict (m.payload ++ [(fingerprintKey, PyValue.str (fingerprint sha codec m.payload))])

def ModelBundleMetadata.written (sha : Sha256 β) (codec : JsonCodec β) (m : ModelBundleMetadata) : β :=
  codec.indented (m.toDict sha codec).sortKeys

end metadata

section verify

/-- The entries below a directory: no directory has two of one name, and each has a proper name. -/
structure BundleTree (β : Type) where
  root : Node PyString β
  unique : root.UniqueNames
  named : root.EveryDirectory fun entries => ∀ entry ∈ entries, IsComponent entry.1

inductive Fault where
  | notDirectory
  | metadataMissing
  | metadataUnreadable
  | metadataNotObject
  | fingerprintMissing
  | fingerprintMismatch
  | unsupportedSchema (version : Option PyValue)
  | notCpuFloat32
  | noArtifacts
  | invalidArtifact (err : ValueError)
  | notCovered (key : PyString)
  | linked (relative : PyString)
  | unsupportedEntry (relative : PyString)
  | missingFiles (names : List PyString)
  | unlisted (names : List PyString)
  | cannotHash (name : PyString)
  | digestMismatch (name : PyString)

inductive PyException where
  | osError
  | unicodeError
  | jsonDecodeError
  | valueError
  | recursionError
  | typeError
  deriving DecidableEq

def PyException.isCaught : PyException → Bool
  | .osError | .unicodeError | .jsonDecodeError => true
  | .valueError | .recursionError | .typeError => false

/-- What an operation raises, if it raises: `is_dir` and `is_file` on the way to the metadata,
`json.loads` of a text, `json.dumps` and `repr` of a value. `rglob` has the entries that the loop gets
to, in some order, and what then raises in the iterator or in a question about the next entry. -/
structure Host (β : Type) where
  probe : Option PyException
  loads : β → Option PyException
  dumps : PyValue → Option PyException
  repr : PyValue → Option PyException
  rglob : Node PyString β → List (List PyString × Node PyString β) × Option PyException
  rglob_listed : ∀ root, ∀ entry ∈ (rglob root).1, entry ∈ root.walk
  rglob_complete : ∀ root, (rglob root).2 = none → ∀ entry ∈ root.walk, entry ∈ (rglob root).1

inductive VerifyError where
  | verification (fault : Fault)
  | escaped (exc : PyException)

def isAscii (s : PyString) : Bool := s.all (· < 128)

def compareDigest (a b : PyString) : Except VerifyError Bool :=
  if isAscii a && isAscii b then .ok (a = b) else .error (.escaped .typeError)

def loadMetadata (codec : JsonCodec β) (host : Host β) (content : β) : Except VerifyError PyValue :=
  match host.loads content with
  | some exc => .error (if exc.isCaught then .verification .metadataUnreadable else .escaped exc)
  | none => match codec.loads content with
    | some value => .ok value
    | none => .error (.verification .metadataUnreadable)

def readMetadata (codec : JsonCodec β) (host : Host β) (root : Node PyString β) :
    Except VerifyError (List (PyString × PyValue)) :=
  match host.probe, root with
  | some exc, _ => .error (.escaped exc)
  | none, .dir readable entries => match (Node.dir readable entries).find [metadataName] with
    | some (.file (some content)) => match loadMetadata codec host content with
      | .error err => .error err
      | .ok (.dict loaded) => .ok loaded
      | .ok _ => .error (.verification .metadataNotObject)
    | some (.file none) => .error (.verification .metadataUnreadable)
    | _ => .error (.verification .metadataMissing)
  | none, _ => .error (.verification .notDirectory)

def fingerprintPayload (loaded : List (PyString × PyValue)) : List (PyString × PyValue) :=
  loaded.filter fun entry => entry.1 ≠ fingerprintKey

def checkFingerprint (sha : Sha256 β) (codec : JsonCodec β) (host : Host β) (loaded : List (PyString × PyValue)) :
    Except VerifyError Unit :=
  match loaded.lookup fingerprintKey with
  | some (.scalar (.str claimed)) => match host.dumps (.dict (fingerprintPayload loaded)) with
    | some exc => .error (.escaped exc)
    | none => match compareDigest claimed (fingerprint sha codec (fingerprintPayload loaded)) with
      | .error err => .error err
      | .ok true => .ok ()
      | .ok false => .error (.verification .fingerprintMismatch)
  | _ => .error (.verification .fingerprintMissing)

def equalsOne : Option PyValue → Bool
  | some (.scalar (.int n)) => n = 1
  | some (.scalar (.bool b)) => b
  | some (.scalar (.float x)) => x = .finite 1
  | _ => false

def equalsText (value : Option PyValue) (s : PyString) : Bool :=
  match value with
  | some (.scalar (.str t)) => t = s
  | _ => false

/-- The text of the error for a wrong version shows the value. -/
def checkContract (host : Host β) (loaded : List (PyString × PyValue)) : Except VerifyError Unit :=
  let version := loaded.lookup (text "schema_version")
  if !equalsOne version then match version.bind host.repr with
    | some exc => .error (.escaped exc)
    | none => .error (.verification (.unsupportedSchema version))
  else if !(equalsText (loaded.lookup (text "input_dtype")) (text "float32") &&
      equalsText (loaded.lookup (text "export_device")) (text "cpu") &&
      equalsText (loaded.lookup (text "export_dtype")) (text "float32")) then
    .error (.verification .notCpuFloat32)
  else .ok ()

def normalizedHashes (loaded : List (PyString × PyValue)) : Except VerifyError (List (PyString × PyString)) :=
  match loaded.lookup (text "artifact_sha256") with
  | some (.dict hashes) =>
    if hashes.length = 0 then .error (.verification .noArtifacts)
    else match hashes.mapM normalizeArtifact with
      | .ok normalized => .ok normalized
      | .error err => .error (.verification (.invalidArtifact err))
  | _ => .error (.verification .noArtifacts)

/-- `loaded.get(key) not in normalized_hashes`; a list and a dict have no hash. -/
def checkCovered (loaded : List (PyString × PyValue)) (hashes : List (PyString × PyString)) (key : PyString) :
    Except VerifyError Unit :=
  match loaded.lookup key with
  | some (.scalar (.str name)) =>
    if name ∈ hashes.map Prod.fst then .ok () else .error (.verification (.notCovered key))
  | some (.list _) | some (.dict _) => .error (.escaped .typeError)
  | _ => .error (.verification (.notCovered key))

def parentLoop : List PyString → List PyString
  | [] => []
  | last :: rest => joinPath (last :: rest).reverse :: parentLoop rest

def parentDirectories (name : PyString) : List PyString :=
  parentLoop (PurePosixPath.parse name).tail.reverse.tail

def recordEntry (seen : List PyString × List PyString) (entry : List PyString × Node PyString β) :
    Except VerifyError (List PyString × List PyString) :=
  let relative := joinPath entry.1
  match entry.2 with
  | .link => .error (.verification (.linked relative))
  | .file _ => .ok (seen.1 ++ [relative], seen.2)
  | .dir _ _ => .ok (seen.1, seen.2 ++ [relative])
  | .special => .error (.verification (.unsupportedEntry relative))

def listEntries (host : Host β) (root : Node PyString β) : Except VerifyError (List PyString × List PyString) :=
  match (host.rglob root).1.foldlM recordEntry ([], []), (host.rglob root).2 with
  | .ok seen, none => .ok seen
  | .ok _, some exc => .error (.escaped exc)
  | .error err, _ => .error err

def checkEntries (names actualFiles actualDirectories : List PyString) : Except VerifyError Unit :=
  let expectedFiles := metadataName :: names
  let expectedDirectories := names.flatMap parentDirectories
  let missingFiles := expectedFiles.filter fun name => name ∉ actualFiles
  let extraFiles := actualFiles.filter fun name => name ∉ expectedFiles
  let extraDirectories := actualDirectories.filter fun name => name ∉ expectedDirectories
  if missingFiles.length ≠ 0 then .error (.verification (.missingFiles missingFiles))
  else if extraFiles.length ≠ 0 ∨ extraDirectories.length ≠ 0 then
    .error (.verification (.unlisted (extraFiles ++ extraDirectories)))
  else .ok ()

/-- `sha256_file` of an artifact against its digest; hashing in chunks is hashing the whole. -/
def checkDigest (sha : Sha256 β) (root : Node PyString β) (artifact : PyString × PyString) :
    Except VerifyError Unit :=
  match root.find (PurePosixPath.parse artifact.1).parts with
  | some (.file (some content)) =>
    match compareDigest artifact.2 (sha.hexdigest content) with
    | .error err => .error err
    | .ok true => .ok ()
    | .ok false => .error (.verification (.digestMismatch artifact.1))
  | _ => .error (.verification (.cannotHash artifact.1))

def verifyModelBundle (sha : Sha256 β) (codec : JsonCodec β) (host : Host β) (tree : BundleTree β) :
    Except VerifyError PyValue := do
  let loaded ← readMetadata codec host tree.root
  checkFingerprint sha codec host loaded
  checkContract host loaded
  let hashes ← normalizedHashes loaded
  checkCovered loaded hashes (text "onnx_file")
  checkCovered loaded hashes (text "state_dict_file")
  let seen ← listEntries host tree.root
  checkEntries (hashes.map Prod.fst) seen.1 seen.2
  hashes.forM (checkDigest sha tree.root)
  return .dict loaded

end verify

end FraudDetection.Bundle
