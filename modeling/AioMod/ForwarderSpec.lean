/-
# What an installed forwarder holds

The launch specification that the installer puts into the RomFS is what the loader reads back, as
far as it fits in the loader's buffers.  The record that the installer commits lists the archives
it registered, but not with the size of the meta archive and not with the number of metas it has.
-/
import AioMod.ForwarderInstall

namespace Forwarder

open ByteImage Nca

/-! ## The launch specification -/

/-- The buffers of the loader are long enough for the arguments and for the path, each with its
NUL. -/
def LaunchFits (config : Config) : Prop :=
  config.argv.length < 2048 ∧ config.nro_path.length < FS_MAX_PATH

/-- A string of a process ends within its address space. -/
theorem Addressable.lt_two_pow {data : Bytes} (h : Addressable data) : data.length < 2 ^ 62 :=
  lt_of_lt_of_le h (by decide)

/-- What the loader makes of the RomFS of the installer. -/
theorem read_initial_launch_spec_installed (config : Config) (s : Loader)
    (hargv : config.argv.length < 2 ^ 62) (hpath : config.nro_path.length < 2 ^ 62) :
    read_initial_launch_spec (romfsBuild (program_romfs config)).1 s =
      if config.argv.length ≥ 2048 ∨ config.nro_path.length ≥ FS_MAX_PATH then
        .error (.homebrewLoader LibnxError_OutOfMemory)
      else
        .ok { s with
          s_next_argv := fill s.s_next_argv (config.argv ++ [0])
          s_next_path := fill s.s_next_path (config.nro_path ++ [0])
          s_home_argv := strcpy s.s_home_argv (fill s.s_next_argv (config.argv ++ [0]))
          s_home_path := strcpy s.s_home_path (fill s.s_next_path (config.nro_path ++ [0])) } := by
  obtain ⟨t, ht⟩ := buildRomfsIntoFile_two
    { name := ascii "/nextArgv", data := config.argv }
    { name := ascii "/nextNroPath", data := config.nro_path }
  have htable : sizeof_romfs_file + align ((ascii "/nextArgv").length - 1) 4 +
      (sizeof_romfs_file + align ((ascii "/nextNroPath").length - 1) 4) ≤ 4096 := by decide
  rw [romfsBuild_eq, program_romfs, ht, t.buf_writes]
  exact read_initial_launch_spec_two t _ s htable hargv hpath

/-- The arguments have no NUL when the path and the given arguments have none. -/
theorem zero_not_mem_argv {config : Config} (hp : 0 ∉ config.nro_path) (ha : 0 ∉ config.args) :
    0 ∉ config.argv := by
  have hspace : (0 : UInt8) ∉ ascii " " := by decide
  rw [Config.argv]
  split
  · exact hp
  · simp [hp, ha, hspace]

/-- **The launch specification.** For every path and all arguments the loader takes exactly these
from the RomFS of the installer and keeps the sizes of its buffers, when they fit in them, and
gives up with its own result when they do not. -/
theorem launch_spec_round_trip (config : Config) (l : Loader) (hl : l.Sized)
    (hp : 0 ∉ config.nro_path) (ha : 0 ∉ config.args) :
    (LaunchFits config →
      ∃ l', read_initial_launch_spec (romfsBuild (program_romfs config)).1 l = .ok l' ∧
        cString l'.s_next_path = config.nro_path ∧ cString l'.s_next_argv = config.argv ∧
        l'.s_next_path.length = FS_MAX_PATH ∧ l'.s_next_argv.length = 2048) ∧
    (¬ LaunchFits config → Addressable config.argv → Addressable config.nro_path →
      read_initial_launch_spec (romfsBuild (program_romfs config)).1 l
        = .error (.homebrewLoader LibnxError_OutOfMemory)) := by
  constructor
  · rintro ⟨hfit₁, hfit₂⟩
    have hread := read_initial_launch_spec_installed config l
      (lt_of_lt_of_le hfit₁ (by decide)) (lt_of_lt_of_le hfit₂ (by decide))
    refine ⟨_, hread.trans (if_neg (by omega)), cString_fill _ _ hp,
      cString_fill _ _ (zero_not_mem_argv hp ha), ?_, ?_⟩
    · refine (length_fill _ _ ?_).trans hl.next_path
      rw [hl.next_path, List.length_append, List.length_singleton]
      omega
    · refine (length_fill _ _ ?_).trans hl.next_argv
      rw [hl.next_argv, List.length_append, List.length_singleton]
      omega
  · intro hno hargv hpath
    have hread := read_initial_launch_spec_installed config l hargv.lt_two_pow hpath.lt_two_pow
    rw [LaunchFits] at hno
    exact hread.trans (if_pos (by omega))

/-- A loader with empty buffers. -/
def emptyLoader : Loader where
  s_argv := zeros 2048
  s_next_argv := zeros 2048
  s_next_path := zeros FS_MAX_PATH
  s_home_argv := zeros 2048
  s_home_path := zeros FS_MAX_PATH
  s_heap := []

theorem emptyLoader_sized : emptyLoader.Sized :=
  ⟨length_zeros _, length_zeros _, length_zeros _, length_zeros _, length_zeros _⟩

theorem installKey_small : installKey smallEnv none smallConfig = .ok [] := by decide

/-- The launch specification of a forwarder without arguments. -/
theorem launch_spec_round_trip_small :
    ∃ l', read_initial_launch_spec (romfsBuild (program_romfs smallConfig)).1 emptyLoader
        = .ok l' ∧
      cString l'.s_next_path = smallConfig.nro_path ∧ cString l'.s_next_argv = smallConfig.argv ∧
      l'.s_next_path.length = FS_MAX_PATH ∧ l'.s_next_argv.length = 2048 :=
  (launch_spec_round_trip smallConfig emptyLoader emptyLoader_sized (by decide) (by decide)).1
    (by unfold LaunchFits; decide)

/-- A path one byte too long for the loader. -/
def longConfig : Config := { smallConfig with nro_path := List.replicate FS_MAX_PATH 97 }

/-- The long path is installed, and the loader gives up on it. -/
theorem long_path_not_launched :
    0 ∉ longConfig.nro_path ∧ 0 ∉ longConfig.args ∧
      (install smallEnv tableServices none 5 longConfig installedConsole).1 = .ok () ∧
      read_initial_launch_spec (romfsBuild (program_romfs longConfig)).1 emptyLoader
        = .error (.homebrewLoader LibnxError_OutOfMemory) := by
  have hlen : longConfig.nro_path.length = FS_MAX_PATH := List.length_replicate
  have hargv : longConfig.argv = longConfig.nro_path := if_pos rfl
  have hkey : installKey smallEnv none longConfig = .ok [] := by
    rw [installKey_eq_ok]
    refine ⟨List.ne_nil_of_length_pos (by rw [hlen]; decide), ?_, rfl, ?_, ?_, rfl, ?_, ?_, ?_⟩
    all_goals decide
  refine ⟨by simp [longConfig], by decide, install_ok hkey, ?_⟩
  rw [read_initial_launch_spec_installed, if_pos (.inr hlen.ge)]
  · rw [hargv, hlen]
    decide
  · rw [hlen]
    decide

/-! ## The committed record -/

/-- `sizeof(NcmContentMetaInfo)` -/
def sizeof_NcmContentMetaInfo : ℕ := 0x10

/-- The bytes of the record. -/
def NcmContentMetaData.bytes (d : NcmContentMetaData) : Bytes :=
  d.header.bytes ++ d.extended.bytes ++ d.infos.flatMap NcmContentInfo.bytes

/-- What is behind the header, the extended header and the content infos of a record. -/
def NcmContentMetaData.metaInfoBytes (d : NcmContentMetaData) : Bytes :=
  d.bytes.drop (8 + d.header.extended_header_size + 0x18 * d.header.content_count)

/-- A record agrees with the archives: each content info is that of an archive, the counts are
those of the infos that are there, and the content infos of the CNMT are those of the record
behind that of the meta archive. -/
structure RecordAgrees (ncas : List NcaEntry) (cnmt : Bytes) (d : NcmContentMetaData) : Prop where
  contents : ∀ info ∈ d.infos, ∃ nca ∈ ncas,
    info.content_id = nca.contentId ∧ info.size = nca.data.length
  content_count : d.header.content_count = d.infos.length
  content_meta_count :
    d.header.content_meta_count * sizeof_NcmContentMetaInfo = d.metaInfoBytes.length
  cnmt : ∀ i : Fin 2, some (slice cnmt (0x50 + 0x38 * i.val) 0x18)
    = (d.infos[i.val + 1]?).map NcmContentInfo.bytes

/-- The meta archive is announced with the size of its CNMT. -/
theorem metaEntry_infos (env : Env) (key : Bytes) (storage_id : UInt8) (config : Config) :
    (metaEntry env key storage_id config).content_meta_data.infos
      = [{ content_id := (metaEntry env key storage_id config).nca_entry.contentId
           size := 0xC0
           content_type := .Meta },
         (packaged_content_info (contentNcas env key config) 0).info,
         (packaged_content_info (contentNcas env key config) 1).info] := by
  have hsize : ncmU64ToContentInfoSize (cnmt_buf (titleId env.crypto config) storage_id
      (contentNcas env key config)).length = 0xC0 := by
    rw [length_cnmt_buf]
    rfl
  unfold metaEntry createMetaNca
  simp only
  rw [hsize]
  rfl

/-- The info of an archive that was put into the table of the CNMT. -/
theorem packaged_content_info_of {ncas : List NcaEntry} {i : Fin 2} {nca : NcaEntry}
    (h : ncas[i.val]? = some nca) :
    packaged_content_info ncas i = packagedInfo nca := by
  rw [packaged_content_info, h]
  rfl

theorem length_infoBytes (nca : NcaEntry) : (packagedInfo nca).info.bytes.length = 0x18 := by
  simp [packagedInfo, NcmContentInfo.bytes, nca.hash.property]

/-- The content infos in the CNMT. -/
theorem slice_cnmt_buf (tid : ℕ) (storage_id : UInt8) (nca₀ nca₁ : NcaEntry) (i : Fin 2) :
    slice (cnmt_buf tid storage_id [nca₀, nca₁]) (0x50 + 0x38 * i.val) 0x18
      = (packagedInfo (if i = 0 then nca₀ else nca₁)).info.bytes := by
  have hheader : (cnmt_header tid storage_id).bytes.length = 0x20 := by
    simp [CnmtHeader.bytes, NcmContentMetaHeader.bytes]
  have hextended : (cnmt_extended tid).bytes.length = 0x10 := by
    simp [NcmApplicationMetaExtendedHeader.bytes]
  have hinfo₀ := length_infoBytes nca₀
  have hinfo₁ := length_infoBytes nca₁
  have hhash₀ := nca₀.hash.property
  have hhash₁ := nca₁.hash.property
  have hbuf : cnmt_buf tid storage_id [nca₀, nca₁]
      = (cnmt_header tid storage_id).bytes ++ (cnmt_extended tid).bytes ++
        (nca₀.hash.val ++ (packagedInfo nca₀).info.bytes) ++
        (nca₁.hash.val ++ (packagedInfo nca₁).info.bytes) ++ zeros 0x20 := rfl
  by_cases hi : i = 0
  · subst hi
    rw [if_pos rfl, show cnmt_buf tid storage_id [nca₀, nca₁]
      = ((cnmt_header tid storage_id).bytes ++ (cnmt_extended tid).bytes ++ nca₀.hash.val) ++
        (packagedInfo nca₀).info.bytes ++
        (nca₁.hash.val ++ (packagedInfo nca₁).info.bytes ++ zeros 0x20) by
      simp only [hbuf, List.append_assoc]]
    exact slice_middle (by simp only [List.length_append, hheader, hextended, hhash₀]; rfl)
      hinfo₀.symm
  · obtain rfl : i = 1 := by omega
    rw [if_neg hi, show cnmt_buf tid storage_id [nca₀, nca₁]
      = ((cnmt_header tid storage_id).bytes ++ (cnmt_extended tid).bytes ++
          (nca₀.hash.val ++ (packagedInfo nca₀).info.bytes) ++ nca₁.hash.val) ++
        (packagedInfo nca₁).info.bytes ++ zeros 0x20 by
      simp only [hbuf, List.append_assoc]]
    exact slice_middle
      (by simp only [List.length_append, hheader, hextended, hhash₀, hinfo₀, hhash₁]; rfl)
      hinfo₁.symm

/-- What does agree: every content id, the sizes of the program and of the control archive as
long as these fit in 40 bits, the number of contents, and the CNMT. -/
theorem committed_record_rest (env : Env) (key : Bytes) (storage_id : UInt8) (config : Config)
    (hsize : ∀ nca ∈ contentNcas env key config, nca.data.length < 2 ^ 40) :
    (∀ info ∈ (metaEntry env key storage_id config).content_meta_data.infos,
      ∃ nca ∈ ncaEntries env key storage_id config, info.content_id = nca.contentId ∧
        (info.content_type ≠ .Meta → info.size = nca.data.length)) ∧
    (metaEntry env key storage_id config).content_meta_data.header.content_count
      = (metaEntry env key storage_id config).content_meta_data.infos.length ∧
    ∀ i : Fin 2, some (slice (cnmt_buf (titleId env.crypto config) storage_id
        (contentNcas env key config)) (0x50 + 0x38 * i.val) 0x18)
      = ((metaEntry env key storage_id config).content_meta_data.infos[i.val + 1]?).map
        NcmContentInfo.bytes := by
  have hcontent : ∀ nca ∈ contentNcas env key config,
      (packagedInfo nca).info.content_id = nca.contentId ∧
        (packagedInfo nca).info.size = nca.data.length :=
    fun nca hnca => ⟨rfl, Nat.mod_eq_of_lt (hsize nca hnca)⟩
  rw [metaEntry_infos]
  generalize hprogram : createProgramNca env.crypto key (titleId env.crypto config)
    (exefs env config) (program_romfs config) = program
  generalize hcontrol : createControlNca env.crypto key (titleId env.crypto config)
    (control_romfs env config) = control
  have hncas : contentNcas env key config = [program, control] := by
    rw [contentNcas, hprogram, hcontrol]
  rw [ncaEntries, hncas, show packaged_content_info [program, control] 0 = packagedInfo program from
      packaged_content_info_of rfl,
    show packaged_content_info [program, control] 1 = packagedInfo control from
      packaged_content_info_of rfl]
  rw [hncas] at hcontent
  refine ⟨?_, rfl, ?_⟩
  · intro info hinfo
    simp only [List.mem_cons, List.not_mem_nil, or_false] at hinfo
    rcases hinfo with rfl | rfl | rfl
    · exact ⟨_, List.mem_append_right _ List.mem_cons_self, rfl, fun h => absurd rfl h⟩
    · obtain ⟨hid, hlen⟩ := hcontent program List.mem_cons_self
      exact ⟨program, List.mem_append_left _ List.mem_cons_self, hid, fun _ => hlen⟩
    · obtain ⟨hid, hlen⟩ := hcontent control (List.mem_cons_of_mem _ List.mem_cons_self)
      exact ⟨control, List.mem_append_left _ (List.mem_cons_of_mem _ List.mem_cons_self), hid,
        fun _ => hlen⟩
  · intro i
    rw [slice_cnmt_buf]
    by_cases hi : i = 0
    · subst hi
      rfl
    · obtain rfl : i = 1 := by omega
      rfl

/-- One meta is announced, and the record ends behind its contents. -/
theorem committed_record_metas (env : Env) (key : Bytes) (storage_id : UInt8) (config : Config) :
    (metaEntry env key storage_id config).content_meta_data.header.content_meta_count = 1 ∧
      (metaEntry env key storage_id config).content_meta_data.metaInfoBytes = [] := by
  refine ⟨rfl, List.drop_eq_nil_of_le ?_⟩
  have hinfo : ∀ i : Fin 2, (packaged_content_info (contentNcas env key config) i).info.bytes.length
      = 0x18 := by
    intro i
    have h := length_packaged_content_info (contentNcas env key config) i
    have hhash := (packaged_content_info (contentNcas env key config) i).hash.property
    rw [NcmPackagedContentInfo.bytes, List.length_append] at h
    omega
  have hid : (metaEntry env key storage_id config).nca_entry.contentId.length = 16 := by
    have hhash := (metaEntry env key storage_id config).nca_entry.hash.property
    rw [NcaEntry.contentId, List.length_take]
    omega
  have hheader : (metaEntry env key storage_id config).content_meta_data.header.bytes.length
      = 8 := by
    simp [NcmContentMetaHeader.bytes]
  have hextended : (metaEntry env key storage_id config).content_meta_data.extended.bytes.length
      = 16 := by
    simp [NcmApplicationMetaExtendedHeader.bytes]
  have hcount : 8 + (metaEntry env key storage_id
      config).content_meta_data.header.extended_header_size + 0x18 * (metaEntry env key storage_id
      config).content_meta_data.header.content_count = 96 := rfl
  have hfirst : ∀ id : Bytes, id.length = 16 →
      (NcmContentInfo.bytes { content_id := id, size := 0xC0 }).length = 0x18 := by
    intro id h
    simp [NcmContentInfo.bytes, h]
  rw [hcount, NcmContentMetaData.bytes, metaEntry_infos]
  simp only [List.length_append, List.flatMap_cons, List.flatMap_nil, List.length_nil, hheader,
    hextended, hinfo, hfirst _ hid]
  decide

/-- The record of every installation disagrees with the archives: the info of the meta archive
has the size of its CNMT, which is less than a header. -/
theorem not_recordAgrees (env : Env) (key : Bytes) (storage_id : UInt8) (config : Config) :
    ¬ RecordAgrees (ncaEntries env key storage_id config)
      (cnmt_buf (titleId env.crypto config) storage_id (contentNcas env key config))
      (metaEntry env key storage_id config).content_meta_data := by
  intro hagrees
  have hinfos := metaEntry_infos env key storage_id config
  obtain ⟨nca, hnca, -, hsize⟩ := hagrees.contents _ (by rw [hinfos]; exact List.mem_cons_self)
  have hlong := length_ncaEntries hnca
  rw [← hsize] at hlong
  exact absurd (show 0xC00 ≤ 0xC0 from hlong) (by decide)

/-- **The committed record.** Whenever `install` succeeds, the record that it committed does not
agree with the archives that it registered. -/
theorem committed_record_disagrees {σ δ α : Type} (env : Env) (sv : Services σ δ α)
    (fault : Option Call) (storage_id : UInt8) (config : Config) (s : Console σ δ α)
    (hok : (install env sv fault storage_id config s).1 = .ok ()) :
    ∃ key storage db d, installKey env fault config = .ok key ∧
      writeNcas sv.cs fault 0 (ncaEntries env key storage_id config) s.storage
        = (.ok (), storage) ∧
      commitRecord sv.db fault (metaEntry env key storage_id config) s.db = (.ok (), db) ∧
      sv.db.record db (metaKey (titleId env.crypto config)) = some d ∧
      ¬ RecordAgrees (ncaEntries env key storage_id config)
        (cnmt_buf (titleId env.crypto config) storage_id (contentNcas env key config)) d := by
  obtain ⟨key, storage, db, hkey, hwrite, hcommit⟩ := install_ok_stages hok
  have hrecord : sv.db.record db (metaKey (titleId env.crypto config))
      = some (metaEntry env key storage_id config).content_meta_data := by
    rcases commitRecord_spec sv.db fault (metaEntry env key storage_id config) s.db with
      ⟨-, h⟩ | ⟨⟨e, h⟩, -⟩
    · rw [hcommit] at h
      rw [show sv.db.record db = _ from h, metaEntry_key, Function.update_self]
    · rw [hcommit] at h
      cases h
  exact ⟨key, storage, db, _, hkey, hwrite, hcommit, hrecord,
    not_recordAgrees env key storage_id config⟩

/-- A small installation commits a record that disagrees. -/
theorem committed_record_disagrees_small :
    ∃ key storage db d, installKey smallEnv none smallConfig = .ok key ∧
      writeNcas tableServices.cs none 0 (ncaEntries smallEnv key 5 smallConfig)
        installedConsole.storage = (.ok (), storage) ∧
      commitRecord tableServices.db none (metaEntry smallEnv key 5 smallConfig)
        installedConsole.db = (.ok (), db) ∧
      tableServices.db.record db (metaKey (titleId smallEnv.crypto smallConfig)) = some d ∧
      ¬ RecordAgrees (ncaEntries smallEnv key 5 smallConfig)
        (cnmt_buf (titleId smallEnv.crypto smallConfig) 5
          (contentNcas smallEnv key smallConfig)) d :=
  committed_record_disagrees smallEnv tableServices none 5 smallConfig installedConsole
    (install_ok installKey_small)

/-- The small installation succeeds, and its record lists the meta archive with a wrong size. -/
theorem small_record_wrong_size :
    (install smallEnv tableServices none 5 smallConfig installedConsole).1 = .ok () ∧
      ¬ RecordAgrees (ncaEntries smallEnv [] 5 smallConfig)
        (cnmt_buf (titleId smallEnv.crypto smallConfig) 5 (contentNcas smallEnv [] smallConfig))
        (metaEntry smallEnv [] 5 smallConfig).content_meta_data ∧
      (metaEntry smallEnv [] 5 smallConfig).nca_entry.data.length = 0x1000 :=
  ⟨install_ok installKey_small, not_recordAgrees _ _ _ _, length_createMetaNca _ _ _ _ _⟩

end Forwarder
