/-
# The installation of a forwarder

`install` of `forwarder_installer.cpp`: the archives are built, written into the content storage,
announced in the database of content metas, and pushed as an application record.  The services of
the system are parameters: each call has the effect its documentation gives when it succeeds and
none when it fails, and `fault` is the call that fails.
-/
import AioMod.ForwarderNcaSpec
import AioMod.ForwarderLoader

namespace Forwarder

open ByteImage Nca

/-! ## The services -/

/-- A content storage: the registered contents and the placeholders, and the calls on them. -/
structure ContentStorage (σ : Type) where
  content : σ → Bytes → Option Bytes
  placeholder : σ → Bytes → Option Bytes
  generatePlaceHolderId : σ → Bytes
  deletePlaceHolder (placeholder_id : Bytes) : σ → σ
  createPlaceHolder (content_id placeholder_id : Bytes) (size : ℕ) : σ → σ
  writePlaceHolder (placeholder_id : Bytes) (offset : ℕ) (data : Bytes) : σ → σ
  delete (content_id : Bytes) : σ → σ
  register (content_id placeholder_id : Bytes) : σ → σ
  content_deletePlaceHolder : ∀ p s, content (deletePlaceHolder p s) = content s
  content_createPlaceHolder : ∀ c p n s, content (createPlaceHolder c p n s) = content s
  content_writePlaceHolder : ∀ p off data s, content (writePlaceHolder p off data s) = content s
  placeholder_writePlaceHolder : ∀ c p data s,
    placeholder (writePlaceHolder p 0 data (createPlaceHolder c p data.length s)) p = some data
  content_delete : ∀ c s, content (delete c s) = Function.update (content s) c none
  placeholder_delete : ∀ c s, placeholder (delete c s) = placeholder s
  content_register : ∀ c p s, content s c = none →
    content (register c p s) = Function.update (content s) c (placeholder s p)

/-- A database of content metas: what is committed, and the calls that change it.  A database
that was just opened holds what is committed. -/
structure MetaDatabase (δ : Type) where
  record : δ → NcmContentMetaKey → Option NcmContentMetaData
  open_ : δ → δ
  set (key : NcmContentMetaKey) (data : NcmContentMetaData) : δ → δ
  commit : δ → δ
  record_open : ∀ s, record (open_ s) = record s
  record_set : ∀ key data s, record (set key data s) = record s
  record_commit : ∀ key data s,
    record (commit (set key data (open_ s))) = Function.update (record s) key (some data)

/-- What `install` works on. -/
structure Console (σ δ α : Type) where
  storage : σ
  db : δ
  apps : α

/-- The application manager, which also deletes contents and metas. -/
structure ApplicationManager (σ δ α : Type) where
  applicationRecord : α → ℕ → Option (List ContentStorageRecord)
  deleteApplicationCompletely (tid : ℕ) : Console σ δ α → Console σ δ α
  deleteApplicationEntity (tid : ℕ) : Console σ δ α → Console σ δ α
  pushApplicationRecord (tid : ℕ) (records : List ContentStorageRecord) : α → α
  invalidateApplicationControlCache (tid : ℕ) : α → α
  record_deleteApplicationEntity : ∀ tid s,
    applicationRecord (deleteApplicationEntity tid s).apps tid = none
  record_push : ∀ tid records s,
    applicationRecord (pushApplicationRecord tid records s) tid = some records

/-- The services together. -/
structure Services (σ δ α : Type) where
  cs : ContentStorage σ
  db : MetaDatabase δ
  ns : ApplicationManager σ δ α

/-- The calls of the content manager and of the application manager in `install`; those of
`writeNcaToStorage` are numbered by the archive. -/
inductive Call where
  | ncmInitialize
  | nsExInitialize
  | openContentStorage
  | generatePlaceHolderId (i : ℕ)
  | deletePlaceHolder (i : ℕ)
  | createPlaceHolder (i : ℕ)
  | writePlaceHolder (i : ℕ)
  | deletePlaceHolderAgain (i : ℕ)
  | delete (i : ℕ)
  | register (i : ℕ)
  | openContentMetaDatabase
  | metaDatabaseSet
  | metaDatabaseCommit
  | deleteApplicationCompletely
  | deleteApplicationEntity
  | pushApplicationRecord
  | invalidateApplicationControlCache
  deriving DecidableEq

/-- The results `install` reports. -/
inductive Failure where
  | ResultBadArgs
  | ResultLoaderMissing
  | ResultIconMissing
  | spl
  | call (c : Call)
  deriving DecidableEq

/-! ## What is installed -/

/-- `Config` -/
structure Config where
  nro_path : Bytes
  args : Bytes
  name : Bytes
  author : Bytes
  nacp : Bytes
  icon : Bytes

/-- What the installer gets from elsewhere: the keys (`none` when deriving them fails), the two
files of the loader (empty when missing) and what `patchNpdm` and `patchNacp` make of a file. -/
structure Env where
  crypto : Crypto
  splCryptoInitialize : Bool
  header_key : Option Bytes
  hbl_main : Bytes
  hbl_npdm : Bytes
  patchNpdm : ℕ → Bytes → Bytes
  patchNacp : ℕ → Bytes → Bytes → Bytes → Bytes

/-- `config.args` as it is passed on: the path alone, or the path, a space and the arguments. -/
def Config.argv (config : Config) : Bytes :=
  if config.args = [] then config.nro_path else config.nro_path ++ ascii " " ++ config.args

/-- `hash_data[0] & 0x00FFFFFFFFFFF000` -/
def hashId (c : Crypto) (config : Config) : ℕ :=
  ofLe ((c.sha256 (config.nro_path ++ config.argv)).val.take 8) &&& 0x00FFFFFFFFFFF000

/-- `tid` -/
def titleId (c : Crypto) (config : Config) : ℕ := 0x0500000000000000 ||| hashId c config

/-- `old_tid` -/
def oldTitleId (c : Crypto) (config : Config) : ℕ := 0x0100000000000000 ||| hashId c config

/-- `program_romfs` -/
def program_romfs (config : Config) : FileEntries :=
  [{ name := ascii "/nextArgv", data := config.argv },
   { name := ascii "/nextNroPath", data := config.nro_path }]

/-- `exefs` -/
def exefs (env : Env) (config : Config) : FileEntries :=
  [{ name := ascii "main", data := env.hbl_main },
   { name := ascii "main.npdm", data := env.patchNpdm (titleId env.crypto config) env.hbl_npdm }]

/-- `control_romfs` -/
def control_romfs (env : Env) (config : Config) : FileEntries :=
  [{ name := ascii "/control.nacp"
     data := env.patchNacp (titleId env.crypto config) config.name config.author config.nacp },
   { name := ascii "/icon_AmericanEnglish.dat", data := config.icon }]

/-- The archives without the meta archive. -/
def contentNcas (env : Env) (key : Bytes) (config : Config) : List NcaEntry :=
  [createProgramNca env.crypto key (titleId env.crypto config) (exefs env config)
      (program_romfs config),
   createControlNca env.crypto key (titleId env.crypto config) (control_romfs env config)]

/-- `meta_entry` -/
def metaEntry (env : Env) (key : Bytes) (storage_id : UInt8) (config : Config) : NcaMetaEntry :=
  createMetaNca env.crypto key (titleId env.crypto config) storage_id (contentNcas env key config)

/-- `nca_entries` -/
def ncaEntries (env : Env) (key : Bytes) (storage_id : UInt8) (config : Config) : List NcaEntry :=
  contentNcas env key config ++ [(metaEntry env key storage_id config).nca_entry]

/-- The content id of an archive: the first half of its hash. -/
def NcaEntry.contentId (nca : NcaEntry) : Bytes := nca.hash.val.take 16

/-- An archive is at least as long as its header. -/
theorem header_le_length (c : Crypto) (key : Bytes) (b : Building) (tid : ℕ) (type : UInt8) :
    sizeof_Header ≤ (writeNcaHeaderEncrypted c key b tid type).buf.length := by
  obtain ⟨header, buf⟩ := b
  have henc := length_ncaEncryptHeader c key (completeHeader header tid type buf.tell)
  show sizeof_Header ≤ ((buf.seek 0).write (ncaEncryptHeader c key _)).buf.length
  rw [BufHelper.write, sizeof_Header]
  simp only [List.length_append, henc]
  omega

/-- The archives are made of an encrypted header, what is behind it, and their hash. -/
theorem ncaEntries_built {env : Env} {key : Bytes} {storage_id : UInt8} {config : Config}
    {nca : NcaEntry} (h : nca ∈ ncaEntries env key storage_id config) :
    ∃ b tid type t,
      nca = .ofBuf env.crypto (writeNcaHeaderEncrypted env.crypto key b tid type) t := by
  rw [ncaEntries, contentNcas, List.mem_append, List.mem_pair, List.mem_singleton] at h
  rcases h with (rfl | rfl) | rfl
  · exact ⟨_, _, _, _, rfl⟩
  · exact ⟨_, _, _, _, rfl⟩
  · exact ⟨_, _, _, _, rfl⟩

theorem length_ncaEntries {env : Env} {key : Bytes} {storage_id : UInt8} {config : Config}
    {nca : NcaEntry} (h : nca ∈ ncaEntries env key storage_id config) :
    sizeof_Header ≤ nca.data.length := by
  obtain ⟨b, tid, type, t, rfl⟩ := ncaEntries_built h
  exact header_le_length _ _ _ _ _

theorem hash_ncaEntries {env : Env} {key : Bytes} {storage_id : UInt8} {config : Config}
    {nca : NcaEntry} (h : nca ∈ ncaEntries env key storage_id config) :
    nca.hash = env.crypto.sha256 nca.data := by
  obtain ⟨b, tid, type, t, rfl⟩ := ncaEntries_built h
  rfl

/-! ## Writing it -/

section Install

variable {σ δ α : Type}

/-- A call whose result is not looked at. -/
def ignoring {β : Type} (fault : Option Call) (c : Call) (effect : β → β) (s : β) : β :=
  if fault = some c then s else effect s

/-- `writeNcaToStorage`, for the archive number `i`.  Registering fails for a content that is
still there. -/
def writeNcaToStorage (cs : ContentStorage σ) (fault : Option Call) (i : ℕ) (nca : NcaEntry)
    (s : σ) : Except Failure Unit × σ :=
  if fault = some (.generatePlaceHolderId i) then (.error (.call (.generatePlaceHolderId i)), s)
  else
    let placeholder_id := cs.generatePlaceHolderId s
    let s := ignoring fault (.deletePlaceHolder i) (cs.deletePlaceHolder placeholder_id) s
    if fault = some (.createPlaceHolder i) then (.error (.call (.createPlaceHolder i)), s)
    else
      let s := cs.createPlaceHolder nca.contentId placeholder_id nca.data.length s
      if fault = some (.writePlaceHolder i) then
        (.error (.call (.writePlaceHolder i)),
          ignoring fault (.deletePlaceHolderAgain i) (cs.deletePlaceHolder placeholder_id) s)
      else
        let s := cs.writePlaceHolder placeholder_id 0 nca.data s
        let s := ignoring fault (.delete i) (cs.delete nca.contentId) s
        if fault = some (.register i) ∨ cs.content s nca.contentId ≠ none then
          (.error (.call (.register i)),
            ignoring fault (.deletePlaceHolderAgain i) (cs.deletePlaceHolder placeholder_id) s)
        else (.ok (), cs.register nca.contentId placeholder_id s)

/-- The loop over the archives, the first one with number `i`. -/
def writeNcas (cs : ContentStorage σ) (fault : Option Call) :
    ℕ → List NcaEntry → σ → Except Failure Unit × σ
  | _, [], s => (.ok (), s)
  | i, nca :: ncas, s =>
    match writeNcaToStorage cs fault i nca s with
    | (.error e, s) => (.error e, s)
    | (.ok (), s) => writeNcas cs fault (i + 1) ncas s

/-- The record is put into the database and committed. -/
def commitRecord (db : MetaDatabase δ) (fault : Option Call) (entry : NcaMetaEntry) (s : δ) :
    Except Failure Unit × δ :=
  if fault = some .openContentMetaDatabase then (.error (.call .openContentMetaDatabase), s)
  else if fault = some .metaDatabaseSet then (.error (.call .metaDatabaseSet), db.open_ s)
  else
    let s := db.set entry.content_meta_key entry.content_meta_data (db.open_ s)
    if fault = some .metaDatabaseCommit then (.error (.call .metaDatabaseCommit), s)
    else (.ok (), db.commit s)

/-- The record of the application is replaced. -/
def replaceApplication (ns : ApplicationManager σ δ α) (fault : Option Call) (old_tid tid : ℕ)
    (entry : NcaMetaEntry) (s : Console σ δ α) : Except Failure Unit × Console σ δ α :=
  let s := ignoring fault .deleteApplicationCompletely (ns.deleteApplicationCompletely old_tid) s
  let s := ignoring fault .deleteApplicationEntity (ns.deleteApplicationEntity tid) s
  if fault = some .pushApplicationRecord then (.error (.call .pushApplicationRecord), s)
  else
    let apps := ns.pushApplicationRecord tid [entry.content_storage_record] s.apps
    let apps := ignoring fault .invalidateApplicationControlCache
      (ns.invalidateApplicationControlCache tid) apps
    (.ok (), { s with apps })

/-- The services are there and the keys could be derived, or `install` ends with the first
failure. -/
def installKey (env : Env) (fault : Option Call) (config : Config) : Except Failure Bytes :=
  if config.nro_path = [] then .error .ResultBadArgs
  else if config.icon = [] then .error .ResultIconMissing
  else if env.splCryptoInitialize = false then .error .spl
  else if fault = some .ncmInitialize then .error (.call .ncmInitialize)
  else if fault = some .nsExInitialize then .error (.call .nsExInitialize)
  else match env.header_key with
    | none => .error .spl
    | some key =>
      if env.hbl_main = [] ∨ env.hbl_npdm = [] then .error .ResultLoaderMissing
      else if fault = some .openContentStorage then .error (.call .openContentStorage)
      else .ok key

/-- `install` -/
def install (env : Env) (sv : Services σ δ α) (fault : Option Call) (storage_id : UInt8)
    (config : Config) (s : Console σ δ α) : Except Failure Unit × Console σ δ α :=
  match installKey env fault config with
  | .error e => (.error e, s)
  | .ok key =>
    match writeNcas sv.cs fault 0 (ncaEntries env key storage_id config) s.storage with
    | (.error e, storage) => (.error e, { s with storage })
    | (.ok (), storage) =>
      match commitRecord sv.db fault (metaEntry env key storage_id config) s.db with
      | (.error e, db) => (.error e, { s with storage, db })
      | (.ok (), db) =>
        replaceApplication sv.ns fault (oldTitleId env.crypto config)
          (titleId env.crypto config) (metaEntry env key storage_id config)
          { s with storage, db }

/-! ## One archive -/

variable {cs : ContentStorage σ} {fault : Option Call} {i : ℕ} {nca : NcaEntry}

theorem content_ignoring_deletePlaceHolder (c : Call) (p : Bytes) (s : σ) :
    cs.content (ignoring fault c (cs.deletePlaceHolder p) s) = cs.content s := by
  unfold ignoring
  by_cases h : fault = some c
  · rw [if_pos h]
  · rw [if_neg h, cs.content_deletePlaceHolder]

/-- Writing an archive registers it, or fails and leaves the contents as they were, or fails to
register it and has deleted the content with its id. -/
theorem writeNcaToStorage_spec (cs : ContentStorage σ) (fault : Option Call) (i : ℕ)
    (nca : NcaEntry) (s : σ) :
    ((writeNcaToStorage cs fault i nca s).1 = .ok () ∧ fault ≠ some (.register i) ∧
      cs.content (writeNcaToStorage cs fault i nca s).2
        = Function.update (cs.content s) nca.contentId (some nca.data)) ∨
    ((∃ e, (writeNcaToStorage cs fault i nca s).1 = .error e) ∧ fault ≠ some (.register i) ∧
      cs.content (writeNcaToStorage cs fault i nca s).2 = cs.content s) ∨
    ((∃ e, (writeNcaToStorage cs fault i nca s).1 = .error e) ∧ fault = some (.register i) ∧
      cs.content (writeNcaToStorage cs fault i nca s).2
        = Function.update (cs.content s) nca.contentId none) := by
  unfold writeNcaToStorage
  by_cases h1 : fault = some (.generatePlaceHolderId i)
  · rw [if_pos h1, h1]
    exact .inr (.inl ⟨⟨_, rfl⟩, by simp, rfl⟩)
  rw [if_neg h1]
  by_cases h2 : fault = some (.createPlaceHolder i)
  · simp only [if_pos h2, content_ignoring_deletePlaceHolder]
    rw [h2]
    exact .inr (.inl ⟨⟨_, rfl⟩, by simp, trivial⟩)
  by_cases h3 : fault = some (.writePlaceHolder i)
  · simp only [if_neg h2, if_pos h3, content_ignoring_deletePlaceHolder,
      cs.content_createPlaceHolder]
    rw [h3]
    exact .inr (.inl ⟨⟨_, rfl⟩, by simp, trivial⟩)
  simp only [if_neg h2, if_neg h3]
  -- the placeholder is written and the contents are as before
  generalize hp : cs.generatePlaceHolderId s = p
  generalize hs₁ : cs.createPlaceHolder nca.contentId p nca.data.length
    (ignoring fault (.deletePlaceHolder i) (cs.deletePlaceHolder p) s) = s₁
  have hcontent₁ : cs.content s₁ = cs.content s := by
    rw [← hs₁, cs.content_createPlaceHolder, content_ignoring_deletePlaceHolder]
  have hcontent : cs.content (cs.writePlaceHolder p 0 nca.data s₁) = cs.content s := by
    rw [cs.content_writePlaceHolder, hcontent₁]
  have hwritten : cs.placeholder (cs.writePlaceHolder p 0 nca.data s₁) p = some nca.data := by
    rw [← hs₁, cs.placeholder_writePlaceHolder]
  generalize cs.writePlaceHolder p 0 nca.data s₁ = s₂ at hcontent hwritten ⊢
  by_cases h4 : fault = some (.delete i)
  · -- the old content stays, and with it nothing can be registered
    rw [show ignoring fault (.delete i) (cs.delete nca.contentId) s₂ = s₂ from if_pos h4]
    have h5 : fault ≠ some (.register i) := by simp [h4]
    by_cases hold : cs.content s₂ nca.contentId = none
    · rw [if_neg (by simp [h5, hold])]
      refine .inl ⟨rfl, h5, ?_⟩
      rw [cs.content_register _ _ _ hold, hwritten, hcontent]
    · rw [if_pos (.inr hold)]
      refine .inr (.inl ⟨⟨_, rfl⟩, h5, ?_⟩)
      rw [content_ignoring_deletePlaceHolder, hcontent]
  · rw [show ignoring fault (.delete i) (cs.delete nca.contentId) s₂
      = cs.delete nca.contentId s₂ from if_neg h4]
    have hdeleted := cs.content_delete nca.contentId s₂
    by_cases h5 : fault = some (.register i)
    · rw [if_pos (.inl h5)]
      refine .inr (.inr ⟨⟨_, rfl⟩, h5, ?_⟩)
      rw [content_ignoring_deletePlaceHolder, hdeleted, hcontent]
    · have hgone : cs.content (cs.delete nca.contentId s₂) nca.contentId = none := by
        rw [hdeleted, Function.update_self]
      rw [if_neg (by simp [h5, hgone])]
      refine .inl ⟨rfl, h5, ?_⟩
      rw [cs.content_register _ _ _ hgone, cs.placeholder_delete, hwritten, hdeleted, hcontent,
        Function.update_idem]

/-- The calls of the archive `i` whose failure makes writing it fail. -/
def Call.writes (c : Call) (i : ℕ) : Prop :=
  c = .generatePlaceHolderId i ∨ c = .createPlaceHolder i ∨ c = .writePlaceHolder i ∨
    c = .delete i ∨ c = .register i

/-- An archive is written when none of its calls fails. -/
theorem writeNcaToStorage_ok (h : ∀ c, fault = some c → ¬ c.writes i) (s : σ) :
    (writeNcaToStorage cs fault i nca s).1 = .ok () := by
  have hne : ∀ c : Call, c.writes i → fault ≠ some c := fun c hc hf => h c hf hc
  have h1 := hne (.generatePlaceHolderId i) (by simp [Call.writes])
  have h2 := hne (.createPlaceHolder i) (by simp [Call.writes])
  have h3 := hne (.writePlaceHolder i) (by simp [Call.writes])
  have h4 := hne (.delete i) (by simp [Call.writes])
  have h5 := hne (.register i) (by simp [Call.writes])
  simp [writeNcaToStorage, h1, h2, h3, h5, ignoring, h4, cs.content_delete]

/-! ## All archives -/

/-- All archives are written when none of their calls fails. -/
theorem writeNcas_ok {ncas : List NcaEntry} (h : ∀ c, fault = some c → ∀ j, ¬ c.writes j) (s : σ) :
    (writeNcas cs fault i ncas s).1 = .ok () := by
  induction ncas generalizing i s with
  | nil => rfl
  | cons nca ncas ih =>
    have hok : (writeNcaToStorage cs fault i nca s).1 = .ok () :=
      writeNcaToStorage_ok (fun c hc => h c hc i) s
    rw [writeNcas]
    generalize writeNcaToStorage cs fault i nca s = r at hok
    obtain ⟨r, s'⟩ := r
    rw [show r = .ok () from hok]
    exact ih s'

/-- What the loop leaves of contents that are, where an archive has their id, those of the
archive: all of them, unless the registration of such an archive failed. -/
theorem writeNcas_keeps {ncas : List NcaEntry} {old : Bytes → Option Bytes} {ids : Set Bytes}
    {s : σ} (hold : ∀ id ∈ ids, cs.content s id = old id)
    (hsame : ∀ nca ∈ ncas, nca.contentId ∈ ids → old nca.contentId = some nca.data)
    (hregister : ∀ j nca, ncas[j]? = some nca → nca.contentId ∈ ids →
      fault ≠ some (.register (i + j))) :
    ∀ id ∈ ids, cs.content (writeNcas cs fault i ncas s).2 id = old id := by
  induction ncas generalizing i s with
  | nil => exact hold
  | cons nca ncas ih =>
    have hspec := writeNcaToStorage_spec cs fault i nca s
    rw [writeNcas]
    generalize writeNcaToStorage cs fault i nca s = r at hspec
    obtain ⟨r, s'⟩ := r
    rcases hspec with ⟨hr, -, hc⟩ | ⟨⟨e, hr⟩, -, hc⟩ | ⟨⟨e, hr⟩, hfault, hc⟩
    · -- registered: the content of its id is the same as before
      rw [show r = .ok () from hr]
      apply ih
      · intro id hid
        rw [show cs.content s' = _ from hc]
        by_cases hidn : id = nca.contentId
        · rw [hidn, Function.update_self, hsame nca List.mem_cons_self (hidn ▸ hid)]
        · rw [Function.update_of_ne hidn, hold id hid]
      · exact fun n hn => hsame n (List.mem_cons_of_mem _ hn)
      · intro j n hj hn
        rw [Nat.add_assoc, Nat.add_comm 1 j]
        exact hregister (j + 1) n hj hn
    · rw [show r = .error e from hr]
      intro id hid
      show cs.content s' id = _
      rw [show cs.content s' = _ from hc, hold id hid]
    · -- not registered: its id is none of these
      rw [show r = .error e from hr]
      intro id hid
      have hidn : id ≠ nca.contentId := by
        rintro rfl
        exact hregister 0 nca rfl hid hfault
      show cs.content s' id = _
      rw [show cs.content s' = _ from hc, Function.update_of_ne hidn, hold id hid]

/-- A registration that fails leaves no content with the id of the archive. -/
theorem writeNcas_register {ncas : List NcaEntry} {j : ℕ} (hj : ncas[j]? = some nca) (s : σ)
    (hfault : fault = some (.register (i + j))) :
    (∃ e, (writeNcas cs fault i ncas s).1 = .error e) ∧
      cs.content (writeNcas cs fault i ncas s).2 nca.contentId = none := by
  induction ncas generalizing i j s with
  | nil => cases hj
  | cons first ncas ih =>
    rw [writeNcas]
    cases j with
    | zero =>
      have hfirst : first = nca := Option.some.inj hj
      subst hfirst
      have hspec := writeNcaToStorage_spec cs fault i first s
      generalize writeNcaToStorage cs fault i first s = r at hspec
      obtain ⟨r, s'⟩ := r
      rcases hspec with ⟨-, hno, -⟩ | ⟨-, hno, -⟩ | ⟨⟨e, hr⟩, -, hc⟩
      · exact absurd hfault hno
      · exact absurd hfault hno
      · rw [show r = .error e from hr]
        refine ⟨⟨e, rfl⟩, ?_⟩
        show cs.content s' first.contentId = none
        rw [show cs.content s' = _ from hc, Function.update_self]
    | succ j =>
      have hok : (writeNcaToStorage cs fault i first s).1 = .ok () := writeNcaToStorage_ok
        (fun c hc hw => by
          rw [hfault] at hc
          obtain rfl := Option.some.inj hc
          simp [Call.writes] at hw) s
      generalize writeNcaToStorage cs fault i first s = r at hok
      obtain ⟨r, s'⟩ := r
      rw [show r = .ok () from hok]
      exact ih hj s' (by rw [hfault, Nat.add_assoc, Nat.add_comm 1 j])

/-! ## The whole installation -/

/-- The key of the meta of a title. -/
def metaKey (tid : ℕ) : NcmContentMetaKey where
  id := tid
  version := 0
  type := NcmContentMetaType_Application
  install_type := NcmContentInstallType_Full

theorem metaEntry_key (env : Env) (key : Bytes) (storage_id : UInt8) (config : Config) :
    (metaEntry env key storage_id config).content_meta_key
      = metaKey (titleId env.crypto config) := rfl

/-- A title is installed: its meta is committed, the contents the meta lists are registered, and
its application record names the meta. -/
structure Installed (sv : Services σ δ α) (tid : ℕ) (s : Console σ δ α) : Prop where
  record : ∃ data, sv.db.record s.db (metaKey tid) = some data ∧
    ∀ info ∈ data.infos, sv.cs.content s.storage info.content_id ≠ none
  application : ∃ r : ContentStorageRecord,
    sv.ns.applicationRecord s.apps tid = some [r] ∧ r.key = metaKey tid

/-- The content ids the committed meta of a title lists. -/
def previousIds (sv : Services σ δ α) (tid : ℕ) (s : Console σ δ α) : Set Bytes :=
  {id | ∃ data, sv.db.record s.db (metaKey tid) = some data ∧
    ∃ info ∈ data.infos, info.content_id = id}

/-- Nothing of a title has changed: not its meta, not the contents this lists, not its
application record. -/
structure Intact (sv : Services σ δ α) (tid : ℕ) (s s' : Console σ δ α) : Prop where
  record : sv.db.record s'.db (metaKey tid) = sv.db.record s.db (metaKey tid)
  contents : ∀ id ∈ previousIds sv tid s,
    sv.cs.content s'.storage id = sv.cs.content s.storage id
  application : sv.ns.applicationRecord s'.apps tid = sv.ns.applicationRecord s.apps tid

theorem Intact.refl (sv : Services σ δ α) (tid : ℕ) (s : Console σ δ α) : Intact sv tid s s :=
  ⟨rfl, fun _ _ => rfl, rfl⟩

/-- An intact installation is still one. -/
theorem Installed.of_intact {sv : Services σ δ α} {tid : ℕ} {s s' : Console σ δ α}
    (h : Installed sv tid s) (hi : Intact sv tid s s') : Installed sv tid s' := by
  obtain ⟨⟨data, hdata, hinfos⟩, r, hr, hkey⟩ := h
  constructor
  · refine ⟨data, hi.record.trans hdata, fun info hinfo => ?_⟩
    rw [hi.contents _ ⟨data, hdata, info, hinfo, rfl⟩]
    exact hinfos info hinfo
  · exact ⟨r, hi.application.trans hr, hkey⟩

/-- An archive whose content id the previous meta of the title lists is the content that is
registered under it. -/
def NoCollision (env : Env) (sv : Services σ δ α) (storage_id : UInt8) (config : Config)
    (s : Console σ δ α) : Prop :=
  ∀ key, installKey env none config = .ok key → ∀ nca ∈ ncaEntries env key storage_id config,
    nca.contentId ∈ previousIds sv (titleId env.crypto config) s →
      sv.cs.content s.storage nca.contentId = some nca.data

/-- The failing calls that damage the previous installation, for inputs that get that far: the
push of the application record, and the registration of an archive that was there before. -/
def Damages (env : Env) (sv : Services σ δ α) (call : Call) (storage_id : UInt8)
    (config : Config) (s : Console σ δ α) : Prop :=
  ∃ key, installKey env none config = .ok key ∧
    (call = .pushApplicationRecord ∨
      ∃ i nca, (ncaEntries env key storage_id config)[i]? = some nca ∧ call = .register i ∧
        nca.contentId ∈ previousIds sv (titleId env.crypto config) s)

/-- What `install` needs to get to the archives. -/
theorem installKey_eq_ok {env : Env} {config : Config} {key : Bytes} :
    installKey env fault config = .ok key ↔
      config.nro_path ≠ [] ∧ config.icon ≠ [] ∧ env.splCryptoInitialize = true ∧
        fault ≠ some .ncmInitialize ∧ fault ≠ some .nsExInitialize ∧
        env.header_key = some key ∧ env.hbl_main ≠ [] ∧ env.hbl_npdm ≠ [] ∧
        fault ≠ some .openContentStorage := by
  unfold installKey
  cases env.header_key with
  | none => grind
  | some k => grind

/-- The keys of a run with a failing call are those of the run without. -/
theorem installKey_of_fault {env : Env} {config : Config} {key : Bytes}
    (h : installKey env fault config = .ok key) : installKey env none config = .ok key := by
  rw [installKey_eq_ok] at h ⊢
  obtain ⟨h1, h2, h3, -, -, h4, h5, h6, -⟩ := h
  exact ⟨h1, h2, h3, by simp, by simp, h4, h5, h6, by simp⟩

/-- Putting the record into the database: committed, or failed and not committed. -/
theorem commitRecord_spec (db : MetaDatabase δ) (fault : Option Call) (entry : NcaMetaEntry)
    (s : δ) :
    ((commitRecord db fault entry s).1 = .ok () ∧
      db.record (commitRecord db fault entry s).2
        = Function.update (db.record s) entry.content_meta_key (some entry.content_meta_data)) ∨
    ((∃ e, (commitRecord db fault entry s).1 = .error e) ∧
      db.record (commitRecord db fault entry s).2 = db.record s) := by
  unfold commitRecord
  by_cases h1 : fault = some .openContentMetaDatabase
  · exact .inr ⟨⟨_, by rw [if_pos h1]⟩, by rw [if_pos h1]⟩
  by_cases h2 : fault = some .metaDatabaseSet
  · refine .inr ⟨⟨_, by rw [if_neg h1, if_pos h2]⟩, ?_⟩
    rw [if_neg h1, if_pos h2, db.record_open]
  simp only [if_neg h1, if_neg h2]
  by_cases h3 : fault = some .metaDatabaseCommit
  · refine .inr ⟨⟨_, by rw [if_pos h3]⟩, ?_⟩
    rw [if_pos h3, db.record_set, db.record_open]
  · refine .inl ⟨by rw [if_neg h3], ?_⟩
    rw [if_neg h3, db.record_commit]

section Failures

variable {env : Env} {sv : Services σ δ α} {storage_id : UInt8} {config : Config} {key : Bytes}
  {s : Console σ δ α}

/-- Without a failing call, inputs that get to the archives are installed. -/
theorem install_ok (hkey : installKey env none config = .ok key) :
    (install env sv none storage_id config s).1 = .ok () := by
  have hwrite : (writeNcas sv.cs none 0 (ncaEntries env key storage_id config) s.storage).1
      = .ok () := writeNcas_ok (fun c hc => by cases hc) s.storage
  rw [install, hkey]
  simp only
  generalize writeNcas sv.cs _ 0 _ s.storage = r at hwrite
  obtain ⟨r, storage⟩ := r
  rw [show r = .ok () from hwrite]
  rfl

/-- What an installation that succeeds went through. -/
theorem install_ok_stages {fault : Option Call}
    (h : (install env sv fault storage_id config s).1 = .ok ()) :
    ∃ key storage db, installKey env fault config = .ok key ∧
      writeNcas sv.cs fault 0 (ncaEntries env key storage_id config) s.storage
        = (.ok (), storage) ∧
      commitRecord sv.db fault (metaEntry env key storage_id config) s.db = (.ok (), db) := by
  rw [install] at h
  cases hkey : installKey env fault config with
  | error e =>
    rw [hkey] at h
    cases h
  | ok key =>
    rw [hkey] at h
    simp only at h
    cases hwrite : writeNcas sv.cs fault 0 (ncaEntries env key storage_id config) s.storage with
    | mk r storage =>
      rw [hwrite] at h
      cases r with
      | error e => cases h
      | ok _ =>
        simp only at h
        cases hcommit : commitRecord sv.db fault (metaEntry env key storage_id config) s.db with
        | mk r db =>
          rw [hcommit] at h
          cases r with
          | error e => cases h
          | ok _ => exact ⟨key, storage, db, rfl, hwrite, hcommit⟩

/-- Without the push the application record is gone. -/
theorem install_push_fails (hkey : installKey env (some .pushApplicationRecord) config = .ok key) :
    (∃ e, (install env sv (some .pushApplicationRecord) storage_id config s).1 = .error e) ∧
      sv.ns.applicationRecord
        (install env sv (some .pushApplicationRecord) storage_id config s).2.apps
        (titleId env.crypto config) = none := by
  have hwrite : (writeNcas sv.cs (some .pushApplicationRecord) 0
      (ncaEntries env key storage_id config) s.storage).1 = .ok () := writeNcas_ok
    (fun c hc j hw => by
      obtain rfl := Option.some.inj hc
      simp [Call.writes] at hw) s.storage
  rw [install, hkey]
  simp only
  generalize writeNcas sv.cs _ 0 _ s.storage = r at hwrite
  obtain ⟨r, storage⟩ := r
  rw [show r = .ok () from hwrite]
  refine ⟨⟨_, rfl⟩, ?_⟩
  exact sv.ns.record_deleteApplicationEntity _ _

/-- When a registration fails, what had the id before is gone. -/
theorem install_register_fails {i : ℕ} {nca : NcaEntry}
    (hkey : installKey env (some (.register i)) config = .ok key)
    (hnca : (ncaEntries env key storage_id config)[i]? = some nca) :
    (∃ e, (install env sv (some (.register i)) storage_id config s).1 = .error e) ∧
      sv.cs.content (install env sv (some (.register i)) storage_id config s).2.storage
        nca.contentId = none := by
  obtain ⟨⟨e, he⟩, hcontent⟩ : (∃ e, (writeNcas sv.cs (some (.register i)) 0
      (ncaEntries env key storage_id config) s.storage).1 = .error e) ∧
      sv.cs.content (writeNcas sv.cs (some (.register i)) 0
        (ncaEntries env key storage_id config) s.storage).2 nca.contentId = none :=
    writeNcas_register hnca s.storage (by rw [Nat.zero_add])
  rw [install, hkey]
  simp only
  generalize writeNcas sv.cs _ 0 _ s.storage = r at he hcontent
  obtain ⟨r, storage⟩ := r
  rw [show r = .error e from he]
  exact ⟨⟨e, rfl⟩, hcontent⟩

/-- Every other failure keeps what was installed. -/
theorem install_keeps {fault : Option Call} (hkey : installKey env fault config = .ok key)
    (hids : NoCollision env sv storage_id config s)
    (hpush : fault ≠ some .pushApplicationRecord)
    (hregister : ∀ i nca, (ncaEntries env key storage_id config)[i]? = some nca →
      nca.contentId ∈ previousIds sv (titleId env.crypto config) s → fault ≠ some (.register i))
    {e : Failure} (he : (install env sv fault storage_id config s).1 = .error e) :
    Intact sv (titleId env.crypto config) s (install env sv fault storage_id config s).2 := by
  have hkeep : ∀ id ∈ previousIds sv (titleId env.crypto config) s,
      sv.cs.content (writeNcas sv.cs fault 0 (ncaEntries env key storage_id config)
        s.storage).2 id = sv.cs.content s.storage id := writeNcas_keeps
    (fun _ _ => rfl) (hids key (installKey_of_fault hkey))
    (fun j nca hj hn => by
      rw [Nat.zero_add]
      exact hregister j nca hj hn)
  have hcommit := commitRecord_spec sv.db fault (metaEntry env key storage_id config) s.db
  rw [install, hkey] at he ⊢
  simp only at he ⊢
  generalize writeNcas sv.cs fault 0 _ s.storage = r at hkeep he ⊢
  obtain ⟨r, storage⟩ := r
  cases r with
  | error _ => exact ⟨rfl, hkeep, rfl⟩
  | ok _ =>
    simp only at he ⊢
    generalize commitRecord sv.db fault (metaEntry env key storage_id config) s.db = r
      at hcommit he ⊢
    obtain ⟨r, db⟩ := r
    cases r with
    | error _ =>
      rcases hcommit with ⟨hok, -⟩ | ⟨-, hrecord⟩
      · cases hok
      · exact ⟨congrFun hrecord _, hkeep, rfl⟩
    | ok _ =>
      -- nothing but the push can fail from here on
      simp [replaceApplication, hpush] at he

end Failures

/-- **What a failed installation leaves.** A title is installed and one call fails.  If `install`
reports a failure, the title is untouched and still installed, for all inputs and all calls but
the push of the application record and the registrations of archives that were there before. -/
theorem failed_install_keeps_iff (env : Env) (sv : Services σ δ α) (call : Call)
    (storage_id : UInt8) (config : Config) (s : Console σ δ α)
    (hinstalled : Installed sv (titleId env.crypto config) s)
    (hids : NoCollision env sv storage_id config s) :
    (∀ e, (install env sv (some call) storage_id config s).1 = .error e →
      Intact sv (titleId env.crypto config) s
        (install env sv (some call) storage_id config s).2 ∧
      Installed sv (titleId env.crypto config)
        (install env sv (some call) storage_id config s).2) ↔
      ¬ Damages env sv call storage_id config s := by
  constructor
  · rintro hkeeps ⟨key, hkey, hcall⟩
    have hkey' : installKey env (some call) config = .ok key := by
      rw [installKey_eq_ok] at hkey ⊢
      obtain ⟨h1, h2, h3, -, -, h4, h5, h6, -⟩ := hkey
      rcases hcall with rfl | ⟨i, nca, -, rfl, -⟩
      · exact ⟨h1, h2, h3, by simp, by simp, h4, h5, h6, by simp⟩
      · exact ⟨h1, h2, h3, by simp, by simp, h4, h5, h6, by simp⟩
    -- the record is gone before it is pushed, the content before it is registered
    rcases hcall with rfl | ⟨i, nca, hnca, rfl, hprevious⟩
    · obtain ⟨⟨e, he⟩, hgone⟩ : (∃ e, (install env sv (some .pushApplicationRecord) storage_id
          config s).1 = .error e) ∧ _ := install_push_fails hkey'
      obtain ⟨-, -, r, hr, -⟩ := hkeeps e he
      rw [hgone] at hr
      cases hr
    · obtain ⟨⟨e, he⟩, hgone⟩ : (∃ e, (install env sv (some (.register i)) storage_id
          config s).1 = .error e) ∧ _ := install_register_fails hkey' hnca
      obtain ⟨hintact, -⟩ := hkeeps e he
      have hsome := hids key hkey nca (List.mem_of_getElem? hnca) hprevious
      have hkept := hintact.contents _ hprevious
      rw [hgone, hsome] at hkept
      cases hkept
  · intro hno e he
    have hintact : Intact sv (titleId env.crypto config) s
        (install env sv (some call) storage_id config s).2 := by
      cases hkey : installKey env (some call) config with
      | error _ =>
        rw [install, hkey]
        exact Intact.refl _ _ _
      | ok key =>
        have hkey' := installKey_of_fault hkey
        apply install_keeps hkey hids _ _ he
        · intro hpush
          exact hno ⟨key, hkey', .inl (Option.some.inj hpush)⟩
        · intro i nca hnca hprevious hregister
          exact hno ⟨key, hkey', .inr ⟨i, nca, hnca, Option.some.inj hregister, hprevious⟩⟩
    exact ⟨hintact, hinstalled.of_intact hintact⟩

end Install

/-! ## A console with one forwarder -/

/-- Contents and placeholders as two tables. -/
def tableStorage : ContentStorage ((Bytes → Option Bytes) × (Bytes → Option Bytes)) where
  content s := s.1
  placeholder s := s.2
  generatePlaceHolderId _ := []
  deletePlaceHolder p s := (s.1, Function.update s.2 p none)
  createPlaceHolder _ p size s := (s.1, Function.update s.2 p (some (zeros size)))
  writePlaceHolder p offset data s :=
    (s.1, Function.update s.2 p ((s.2 p).map fun old =>
      old.take offset ++ data ++ old.drop (offset + data.length)))
  delete c s := (Function.update s.1 c none, s.2)
  register c p s := (Function.update s.1 c (s.2 p), Function.update s.2 p none)
  content_deletePlaceHolder _ _ := rfl
  content_createPlaceHolder _ _ _ _ := rfl
  content_writePlaceHolder _ _ _ _ := rfl
  placeholder_writePlaceHolder _ _ _ _ := by simp [zeros]
  content_delete _ _ := rfl
  placeholder_delete _ _ := rfl
  content_register _ _ _ _ := rfl

/-- What is committed and what is to be. -/
def tableDatabase : MetaDatabase ((NcmContentMetaKey → Option NcmContentMetaData) ×
    (NcmContentMetaKey → Option NcmContentMetaData)) where
  record s := s.1
  open_ s := (s.1, s.1)
  set key data s := (s.1, Function.update s.2 key (some data))
  commit s := (s.2, s.2)
  record_open _ := rfl
  record_set _ _ _ := rfl
  record_commit _ _ _ := rfl

/-- Application records as a table. -/
def tableManager (σ δ : Type) :
    ApplicationManager σ δ (ℕ → Option (List ContentStorageRecord)) where
  applicationRecord s := s
  deleteApplicationCompletely tid s := { s with apps := Function.update s.apps tid none }
  deleteApplicationEntity tid s := { s with apps := Function.update s.apps tid none }
  pushApplicationRecord tid records s := Function.update s tid (some records)
  invalidateApplicationControlCache _ s := s
  record_deleteApplicationEntity _ _ := Function.update_self _ _ _
  record_push _ _ _ := Function.update_self _ _ _

/-- The services on tables. -/
def tableServices := Services.mk tableStorage tableDatabase (tableManager _ _)

/-- A cipher that changes nothing and a hash that tells lengths apart. -/
def Crypto.byLength : Crypto :=
  { Crypto.plain with
    sha256 := fun data =>
      ⟨(if data.length < sizeof_Header then 0 else 1) :: le 31 data.length, by simp⟩ }

/-- A small loader, and patches that change nothing. -/
def smallEnv : Env where
  crypto := .byLength
  splCryptoInitialize := true
  header_key := some []
  hbl_main := [1]
  hbl_npdm := [2]
  patchNpdm _ npdm := npdm
  patchNacp _ _ _ nacp := nacp

/-- A forwarder without arguments. -/
def smallConfig : Config where
  nro_path := ascii "/a.nro"
  args := []
  name := []
  author := []
  nacp := []
  icon := [3]

/-- The id of the content `[1]`. -/
def oldContentId : Bytes := (Crypto.byLength.sha256 [1]).val.take 16

/-- The meta of the content `[1]`. -/
def oldMeta : NcmContentMetaData where
  header :=
    { extended_header_size := 0x10
      content_count := 1
      content_meta_count := 0
      attributes := 0
      storage_id := 0 }
  extended := { patch_id := 0 }
  infos := [{ content_id := oldContentId, size := 1, content_type := .Program }]

/-- The title of the forwarder is installed, with the one content `[1]`. -/
def installedConsole : Console ((Bytes → Option Bytes) × (Bytes → Option Bytes))
    ((NcmContentMetaKey → Option NcmContentMetaData) ×
      (NcmContentMetaKey → Option NcmContentMetaData))
    (ℕ → Option (List ContentStorageRecord)) :=
  let tid := titleId smallEnv.crypto smallConfig
  let records := Function.update (fun _ => none) (metaKey tid) (some oldMeta)
  { storage := (Function.update (fun _ => none) oldContentId (some [1]), fun _ => none)
    db := (records, records)
    apps := Function.update (fun _ => none) tid (some [{ key := metaKey tid, storage_id := 5 }]) }

theorem record_installedConsole :
    tableServices.db.record installedConsole.db (metaKey (titleId smallEnv.crypto smallConfig))
      = some oldMeta := by
  simp [installedConsole, tableServices, tableDatabase]

theorem application_installedConsole :
    tableServices.ns.applicationRecord installedConsole.apps
        (titleId smallEnv.crypto smallConfig)
      = some [{ key := metaKey (titleId smallEnv.crypto smallConfig), storage_id := 5 }] := by
  simp [installedConsole, tableServices, tableManager]

theorem installedConsole_installed :
    Installed tableServices (titleId smallEnv.crypto smallConfig) installedConsole := by
  constructor
  · refine ⟨oldMeta, record_installedConsole, fun info hinfo => ?_⟩
    rw [List.mem_singleton.mp hinfo]
    simp [installedConsole, tableServices, tableStorage]
  · exact ⟨_, application_installedConsole, rfl⟩

theorem installedConsole_noCollision :
    NoCollision smallEnv tableServices 5 smallConfig installedConsole := by
  rintro key - nca hnca ⟨data, hdata, info, hinfo, hid⟩
  obtain rfl : oldMeta = data := Option.some.inj (record_installedConsole.symm.trans hdata)
  rw [List.mem_singleton.mp hinfo] at hid
  have hlen := length_ncaEntries hnca
  -- the ids begin with different bytes
  have hnew : nca.contentId.head? = some 1 := by
    rw [NcaEntry.contentId, hash_ncaEntries hnca]
    show some (if nca.data.length < sizeof_Header then (0 : UInt8) else 1) = some 1
    rw [if_neg (by omega)]
  rw [← hid] at hnew
  exact absurd hnew (by decide)

/-- The commit fails and the installed forwarder stays. -/
theorem failed_install_keeps_commit :
    ¬ Damages smallEnv tableServices .metaDatabaseCommit 5 smallConfig installedConsole ∧
      ∀ e, (install smallEnv tableServices (some .metaDatabaseCommit) 5 smallConfig
          installedConsole).1 = .error e →
        Intact tableServices (titleId smallEnv.crypto smallConfig) installedConsole
          (install smallEnv tableServices (some .metaDatabaseCommit) 5 smallConfig
            installedConsole).2 ∧
        Installed tableServices (titleId smallEnv.crypto smallConfig)
          (install smallEnv tableServices (some .metaDatabaseCommit) 5 smallConfig
            installedConsole).2 := by
  have hno : ¬ Damages smallEnv tableServices .metaDatabaseCommit 5 smallConfig
      installedConsole := by
    rintro ⟨key, -, h | ⟨i, nca, -, h, -⟩⟩
    · cases h
    · cases h
  exact ⟨hno, (failed_install_keeps_iff smallEnv tableServices .metaDatabaseCommit 5 smallConfig
    installedConsole installedConsole_installed installedConsole_noCollision).mpr hno⟩

/-- The push fails, and the application record of the installed forwarder is gone. -/
theorem failed_push_loses_forwarder :
    Installed tableServices (titleId smallEnv.crypto smallConfig) installedConsole ∧
      NoCollision smallEnv tableServices 5 smallConfig installedConsole ∧
      (∃ e, (install smallEnv tableServices (some .pushApplicationRecord) 5 smallConfig
        installedConsole).1 = .error e) ∧
      ¬ Installed tableServices (titleId smallEnv.crypto smallConfig)
        (install smallEnv tableServices (some .pushApplicationRecord) 5 smallConfig
          installedConsole).2 := by
  have hkey : installKey smallEnv (some .pushApplicationRecord) smallConfig = .ok [] := by
    decide
  obtain ⟨herror, hgone⟩ : (∃ e, (install smallEnv tableServices (some .pushApplicationRecord) 5
      smallConfig installedConsole).1 = .error e) ∧ _ := install_push_fails hkey
  refine ⟨installedConsole_installed, installedConsole_noCollision, herror, ?_⟩
  rintro ⟨-, r, hr, -⟩
  rw [hgone] at hr
  cases hr

end Forwarder
