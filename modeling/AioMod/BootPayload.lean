/-
# The boot payload under an update of the application

`confirm_page.cpp`: on a console that cannot be rebooted into a payload, the button of the page
saves the boot payload, puts the updater in its place and reboots.  What the program asks of the
card is what its streams and `std::filesystem` do; any of it may fail, a file that is written may be
left with anything in it, and the power may go at any time.
-/
import AioMod.FatFs

namespace ConfirmPage

def RCM_PAYLOAD_PATH : FsPath := ["romfs:", "aio_rcm.bin"]
def MARIKO_PAYLOAD_PATH : FsPath := ["payload.bin"]
def MARIKO_PAYLOAD_PATH_TEMP : FsPath := ["payload.bin.aio"]
def UPDATE_BIN_PATH : FsPath := ["bootloader", "update.bin"]
def REBOOT_PAYLOAD_PATH : FsPath := ["atmosphere", "reboot_payload.bin"]
def APP_PAYLOAD_UPDATE_READY_PATH : FsPath := ["aio-mod-app-update", "ready"]
def APP_PAYLOAD_UPDATE_STAGED_NRO : FsPath :=
  ["aio-mod-app-update", "new", "switch", "aio-switch-updater-mod", "aio-switch-updater-mod.nro"]

/-! ## The calls -/

/-- The files there are. -/
abbrev Card : Type := FsPath → Option Bytes

/-- What the page calls; `transfer` is `destination << source.rdbuf()` and the flush behind it. -/
inductive Fn : Type where
  | fileExists (p : FsPath)
  | file_size (p : FsPath)
  | ifstream (p : FsPath)
  | ofstream (p : FsPath)
  | transfer (source destination : FsPath)
  | close (p : FsPath)
  | read (p : FsPath) (ofs n : ℕ)
  | appUpdatePreflight
  | canRebootToPayload
  | rebootToPayload
  | spsmShutdown

/-- What a call returns: no size, no bytes and no answer on an error. -/
@[reducible] def Fn.Res : Fn → Type
  | file_size _ => Option ℕ
  | read _ _ _ => Option Bytes
  | canRebootToPayload => Option Bool
  | _ => Bool

@[reducible] def Files : Interface := ⟨Fn, Fn.Res⟩

def fcall (fn : Fn) : Prog Files fn.Res := Prog.op (I := Files) fn

/-- What a call may return and leave.  Whether a file exists is told, or the program ends.  A stream
for writing empties its file, and nothing is assumed of what is then written. -/
def Effect (σ : Card) : (fn : Fn) → fn.Res → Card → Prop
  | .fileExists p, r, σ' => σ' = σ ∧ r = (σ p).isSome
  | .file_size p, r, σ' => σ' = σ ∧ (r = none ∨ r = (σ p).map List.length)
  | .ifstream p, r, σ' => σ' = σ ∧ (r = true → (σ p).isSome = true)
  | .ofstream p, r, σ' => σ' = Function.update σ p (some []) ∨ r = false ∧ σ' = σ
  | .transfer _ destination, _, σ' => ∃ b, σ' = Function.update σ destination (some b)
  | .close _, _, σ' => σ' = σ
  | .read p ofs n, r, σ' => σ' = σ ∧ (r = none ∨ r = (σ p).map fun b => (b.drop ofs).take n)
  | .appUpdatePreflight, _, σ' => σ' = σ
  | .canRebootToPayload, _, σ' => σ' = σ
  | .rebootToPayload, _, σ' => σ' = σ
  | .spsmShutdown, _, σ' => σ' = σ

def card : Machine Files Card := Effect

/-! ## The page -/

def usableFile (path : FsPath) : Prog Files Bool := do
  match ← fcall (.file_size path) with
  | none => return false
  | some size => return 0 < size

/-- The size of the buffers that are compared. -/
def BUFFER : ℕ := 8192

/-- Whether a stream is still good behind a read. -/
def good : Option Bytes → Bool
  | none => false
  | some b => b.length = BUFFER

/-- Whether a read came to the end of its file, without an error. -/
def atEnd : Option Bytes → Bool
  | none => false
  | some b => b.length < BUFFER

/-- The loop that compares two files, for at most `n` rounds. -/
def compareLoop (source destination : FsPath) : ℕ → ℕ → Prog Files Bool
  | 0, _ => return false
  | n + 1, ofs => do
    let left ← fcall (.read source ofs BUFFER)
    let right ← fcall (.read destination ofs BUFFER)
    if left.getD [] ≠ right.getD [] then
      return false
    else if good left && good right then
      compareLoop source destination n (ofs + BUFFER)
    else
      return atEnd left && atEnd right

/-- The files are opened again and compared. -/
def verifyCopy (source destination : FsPath) (sourceSize : ℕ) : Prog Files Bool := do
  match ← fcall (.file_size destination) with
  | none => return false
  | some copiedSize =>
    if copiedSize ≠ sourceSize then
      return false
    if !(← fcall (.ifstream source)) then
      return false
    if !(← fcall (.ifstream destination)) then
      return false
    compareLoop source destination (sourceSize + 1) 0

def copyFileVerified (source destination : FsPath) : Prog Files Bool := do
  match ← fcall (.file_size source) with
  | none => return false
  | some sourceSize =>
    if sourceSize = 0 then
      return false
    if !(← fcall (.ifstream source)) then
      return false
    if !(← fcall (.ofstream destination)) then
      return false
    if !(← fcall (.transfer source destination)) then
      return false
    if !(← fcall (.close destination)) then
      return false
    verifyCopy source destination sourceSize

/-- How a press of the button ends: the message, or the reboot. -/
inductive Outcome : Type where
  | ignored | app_update_preflight | app_update_stage_missing | app_update_payload_missing
  | app_update_hardware_unknown | app_update_rcm_reboot_failed | rcm_reboot
  | app_update_payload_pending | app_update_payload_backup | app_update_payload_restore
  | app_update_payload_install | app_update_reboot_failed | reboot
  deriving DecidableEq

/-- What the console boots is saved: the root payload, or else one of the others. -/
def saveBootPayload : Prog Files Bool := do
  if ← fcall (.fileExists MARIKO_PAYLOAD_PATH) then
    copyFileVerified MARIKO_PAYLOAD_PATH MARIKO_PAYLOAD_PATH_TEMP
  else if ← fcall (.fileExists UPDATE_BIN_PATH) then
    copyFileVerified UPDATE_BIN_PATH MARIKO_PAYLOAD_PATH_TEMP
  else if ← fcall (.fileExists REBOOT_PAYLOAD_PATH) then
    copyFileVerified REBOOT_PAYLOAD_PATH MARIKO_PAYLOAD_PATH_TEMP
  else
    return false

/-- The saved payload is put back before a fault is reported. -/
def putBack (fault : Outcome) : Prog Files Outcome := do
  if ← copyFileVerified MARIKO_PAYLOAD_PATH_TEMP MARIKO_PAYLOAD_PATH then
    return fault
  else
    return .app_update_payload_restore

def installUpdater : Prog Files Outcome := do
  if ← copyFileVerified RCM_PAYLOAD_PATH MARIKO_PAYLOAD_PATH then
    if ← fcall .spsmShutdown then
      return .reboot
    else
      putBack .app_update_reboot_failed
  else
    putBack .app_update_payload_install

/-- The part of the handler for a console that cannot be rebooted into a payload. -/
def replaceAndReboot : Prog Files Outcome := do
  if ← fcall (.fileExists MARIKO_PAYLOAD_PATH_TEMP) then
    return .app_update_payload_pending
  else if ← saveBootPayload then
    installUpdater
  else
    return .app_update_payload_backup

/-- The click handler of `ConfirmPage_AppUpdate`. -/
def press (rebootRequested : Bool) : Prog Files Outcome := do
  if rebootRequested then
    return .ignored
  if !(← fcall .appUpdatePreflight) then
    return .app_update_preflight
  if !(← usableFile APP_PAYLOAD_UPDATE_READY_PATH) then
    return .app_update_stage_missing
  if !(← usableFile APP_PAYLOAD_UPDATE_STAGED_NRO) then
    return .app_update_stage_missing
  if !(← usableFile RCM_PAYLOAD_PATH) then
    return .app_update_payload_missing
  match ← fcall .canRebootToPayload with
  | none => return .app_update_hardware_unknown
  | some true =>
    if ← fcall .rebootToPayload then
      return .rcm_reboot
    else
      return .app_update_rcm_reboot_failed
  | some false => replaceAndReboot

/-- The button is pressed any number of times, and each time the power may go. -/
def Presses : Card → Card → Prop :=
  Relation.ReflTransGen fun σ σ' => ∃ rebootRequested, Run card (press rebootRequested) σ none σ'

/-! ## A verified copy -/

section copy

variable {C : Card → Prop} {σ τ : Card} {source destination : FsPath}

/-- All but one file is as it was. -/
def Off (p : FsPath) (σ σ' : Card) : Prop := ∀ q, q ≠ p → σ' q = σ q

theorem Off.refl (p : FsPath) (σ : Card) : Off p σ σ := fun _ _ => rfl

theorem Off.update {p : FsPath} (h : Off p σ τ) (b : Option Bytes) :
    Off p σ (Function.update τ p b) := fun q hq => by
  rw [Function.update_of_ne hq]
  exact h q hq

theorem wp_fcall {fn : Fn} {Q : fn.Res → Card → Prop} (hC : C σ)
    (hQ : ∀ r σ', Effect σ fn r σ' → C σ' ∧ Q r σ') : wp card C Q (fcall fn) σ :=
  (wp_op (I := Files) _).mpr ⟨hC, hQ⟩

/-- The reads of a file from a place on are what stands there, up to an error. -/
theorem take_of_atEnd {b : Bytes} {ofs : ℕ}
    (h : atEnd (some ((b.drop ofs).take BUFFER)) = true) :
    (b.drop ofs).take BUFFER = b.drop ofs := by
  have hlt : ((b.drop ofs).take BUFFER).length < BUFFER := of_decide_eq_true h
  apply List.take_of_length_le
  rw [List.length_take] at hlt
  omega

/-- **Files that compare equal are equal**, from where the comparison begins. -/
theorem wp_compareLoop (n ofs : ℕ) (hC : C σ) :
    wp card C (fun r τ => τ = σ ∧ (r = true → ∃ a b, σ source = some a ∧ σ destination = some b ∧
      a.drop ofs = b.drop ofs)) (compareLoop source destination n ofs) σ := by
  induction n generalizing ofs with
  | zero => exact ⟨hC, rfl, fun h => absurd h Bool.false_ne_true⟩
  | succ n ih =>
    rw [compareLoop]
    simp only [Prog.bind_eq, Prog.pure_eq]
    refine wp_bind.mpr (wp_fcall hC fun left σ₁ hleft => ?_)
    obtain ⟨rfl, hleft⟩ := hleft
    refine ⟨hC, wp_bind.mpr (wp_fcall hC fun right σ₂ hright => ?_)⟩
    obtain ⟨rfl, hright⟩ := hright
    refine ⟨hC, ?_⟩
    split
    · exact ⟨hC, rfl, fun h => absurd h Bool.false_ne_true⟩
    rename_i hsame
    rw [not_not] at hsame
    -- without an error, both reads are of files that are there
    have hboth : ∀ {l r : Bytes}, left = some l → right = some r → ∃ a b,
        σ₂ source = some a ∧ σ₂ destination = some b ∧ l = (a.drop ofs).take BUFFER ∧
          r = (b.drop ofs).take BUFFER := by
      rintro l r rfl rfl
      obtain hl | hl := hleft
      · cases hl
      obtain hr | hr := hright
      · cases hr
      obtain ⟨a, ha, rfl⟩ := Option.map_eq_some_iff.mp hl.symm
      obtain ⟨b, hb, rfl⟩ := Option.map_eq_some_iff.mp hr.symm
      exact ⟨a, b, ha, hb, rfl, rfl⟩
    split
    · rename_i hgood
      refine wp_conseq (ih (ofs + BUFFER)) (fun _ h => h) fun r τ _ h => ⟨h.1, fun hr => ?_⟩
      obtain ⟨a, b, ha, hb, hrest⟩ := h.2 hr
      rcases left with _ | l
      · cases hgood
      rcases right with _ | r'
      · rw [Bool.and_comm] at hgood
        cases hgood
      obtain ⟨a', b', ha', hb', rfl, rfl⟩ := hboth rfl rfl
      obtain rfl := Option.some.inj (ha.symm.trans ha')
      obtain rfl := Option.some.inj (hb.symm.trans hb')
      refine ⟨a, b, ha, hb, ?_⟩
      rw [← List.take_append_drop BUFFER (a.drop ofs), ← List.take_append_drop BUFFER (b.drop ofs),
        List.drop_drop, List.drop_drop, hrest]
      exact congrArg (· ++ _) hsame
    · refine ⟨hC, rfl, fun hend => ?_⟩
      rw [Bool.and_eq_true] at hend
      rcases left with _ | l
      · cases hend.1
      rcases right with _ | r'
      · cases hend.2
      obtain ⟨a, b, ha, hb, rfl, rfl⟩ := hboth rfl rfl
      refine ⟨a, b, ha, hb, ?_⟩
      rw [← take_of_atEnd hend.1, ← take_of_atEnd hend.2]
      exact hsame

/-- **A copy that was verified is the file that was copied**, whatever the writes did. -/
theorem wp_copyFileVerified (hne : source ≠ destination) {Q : Bool → Card → Prop}
    (hC : ∀ τ, Off destination σ τ → C τ)
    (hQ : ∀ r τ, Off destination σ τ →
      (r = true → ∃ b, b ≠ [] ∧ σ source = some b ∧ τ destination = some b) → Q r τ) :
    wp card C Q (copyFileVerified source destination) σ := by
  -- a copy that gives up has touched the destination only
  have hfalse : ∀ τ, Off destination σ τ → C τ ∧ Q false τ := fun τ h =>
    ⟨hC τ h, hQ false τ h fun h => absurd h Bool.false_ne_true⟩
  have h₀ := Off.refl destination σ
  rw [copyFileVerified]
  simp only [Prog.bind_eq, Prog.pure_eq]
  refine wp_bind.mpr (wp_fcall (hC σ h₀) fun size σ₁ hsize => ?_)
  obtain ⟨rfl, hsize⟩ := hsize
  refine ⟨hC _ h₀, ?_⟩
  rcases size with _ | sourceSize
  · exact hfalse _ h₀
  dsimp only
  split
  · exact hfalse _ h₀
  rename_i hpos
  refine wp_bind.mpr (wp_fcall (hC _ h₀) fun r σ₂ hopen => ?_)
  obtain ⟨rfl, -⟩ := hopen
  refine ⟨hC _ h₀, ?_⟩
  split
  · exact hfalse _ h₀
  refine wp_bind.mpr (wp_fcall (hC _ h₀) fun r σ₃ hopen => ?_)
  have h₃ : Off destination σ₂ σ₃ := by
    obtain rfl | ⟨-, rfl⟩ := hopen
    · exact h₀.update _
    · exact h₀
  refine ⟨hC _ h₃, ?_⟩
  split
  · exact hfalse _ h₃
  refine wp_bind.mpr (wp_fcall (hC _ h₃) fun r σ₄ hwrite => ?_)
  obtain ⟨b, rfl⟩ := hwrite
  have h₄ := h₃.update (some b)
  refine ⟨hC _ h₄, ?_⟩
  split
  · exact hfalse _ h₄
  refine wp_bind.mpr (wp_fcall (hC _ h₄) fun r σ₅ hclose => ?_)
  obtain rfl : σ₅ = _ := hclose
  refine ⟨hC _ h₄, ?_⟩
  split
  · exact hfalse _ h₄
  rw [verifyCopy]
  simp only [Prog.bind_eq, Prog.pure_eq]
  refine wp_bind.mpr (wp_fcall (hC _ h₄) fun size σ₆ hcopied => ?_)
  obtain ⟨rfl, -⟩ := hcopied
  refine ⟨hC _ h₄, ?_⟩
  rcases size with _ | copiedSize
  · exact hfalse _ h₄
  dsimp only
  split
  · exact hfalse _ h₄
  refine wp_bind.mpr (wp_fcall (hC _ h₄) fun r σ₇ hopen => ?_)
  obtain ⟨rfl, -⟩ := hopen
  refine ⟨hC _ h₄, ?_⟩
  split
  · exact hfalse _ h₄
  refine wp_bind.mpr (wp_fcall (hC _ h₄) fun r σ₈ hopen => ?_)
  obtain ⟨rfl, -⟩ := hopen
  refine ⟨hC _ h₄, ?_⟩
  split
  · exact hfalse _ h₄
  -- both files were read to their ends, and are the same
  refine wp_conseq (wp_compareLoop (sourceSize + 1) 0 (hC _ h₄)) (fun _ h => h)
    fun r τ _ hcompared => ?_
  obtain ⟨rfl, hequal⟩ := hcompared
  refine hQ r _ h₄ fun hr => ?_
  obtain ⟨a, c, ha, hc, hac⟩ := hequal hr
  rw [List.drop_zero, List.drop_zero] at hac
  rw [h₄ source hne] at ha
  refine ⟨a, ?_, ha, hac ▸ hc⟩
  rintro rfl
  rw [ha] at hsize
  obtain hsize | hsize := hsize
  · cases hsize
  · exact hpos (Option.some.inj hsize)

end copy

/-! ## The boot payload -/

/-- What the console boots. -/
def bootPayload (σ : Card) : Option Bytes :=
  (σ MARIKO_PAYLOAD_PATH).or ((σ UPDATE_BIN_PATH).or (σ REBOOT_PAYLOAD_PATH))

/-- The root payload is as it was, or what the console booted is saved in full; and the root payload
is only touched once something is saved. -/
structure Safe (σ τ : Card) : Prop where
  kept : τ MARIKO_PAYLOAD_PATH = σ MARIKO_PAYLOAD_PATH ∨
    ∃ b, bootPayload σ = some b ∧ τ MARIKO_PAYLOAD_PATH_TEMP = some b
  unsaved : τ MARIKO_PAYLOAD_PATH_TEMP = none → τ MARIKO_PAYLOAD_PATH = σ MARIKO_PAYLOAD_PATH
  others : ∀ q, q ≠ MARIKO_PAYLOAD_PATH → q ≠ MARIKO_PAYLOAD_PATH_TEMP → τ q = σ q

/-- What an outcome says of the card. -/
def Tells (σ : Card) : Outcome → Card → Prop
  | .reboot, τ => ∃ rcm b, rcm ≠ [] ∧ σ RCM_PAYLOAD_PATH = some rcm ∧
      τ MARIKO_PAYLOAD_PATH = some rcm ∧ bootPayload σ = some b ∧
      τ MARIKO_PAYLOAD_PATH_TEMP = some b
  | .app_update_payload_install, τ => ∃ b, bootPayload σ = some b ∧
      τ MARIKO_PAYLOAD_PATH = some b ∧ τ MARIKO_PAYLOAD_PATH_TEMP = some b
  | .app_update_reboot_failed, τ => ∃ b, bootPayload σ = some b ∧
      τ MARIKO_PAYLOAD_PATH = some b ∧ τ MARIKO_PAYLOAD_PATH_TEMP = some b
  | .app_update_payload_backup, τ => τ MARIKO_PAYLOAD_PATH = σ MARIKO_PAYLOAD_PATH
  | _, _ => True

section page

variable {σ τ τ' : Card}

theorem Safe.refl (σ : Card) : Safe σ σ := ⟨.inl rfl, fun _ => rfl, fun _ _ _ => rfl⟩

/-- While the payload is being saved, the payload is there. -/
theorem Safe.saving (h : Safe σ τ) (hsame : τ MARIKO_PAYLOAD_PATH = σ MARIKO_PAYLOAD_PATH)
    (hoff : Off MARIKO_PAYLOAD_PATH_TEMP τ τ') :
    Safe σ τ' ∧ τ' MARIKO_PAYLOAD_PATH = σ MARIKO_PAYLOAD_PATH := by
  have hpayload := (hoff MARIKO_PAYLOAD_PATH (by decide)).trans hsame
  exact ⟨⟨.inl hpayload, fun _ => hpayload, fun q hq ht => (hoff q ht).trans (h.others q hq ht)⟩,
    hpayload⟩

/-- While the payload is being replaced, it is saved. -/
theorem Safe.replacing (h : Safe σ τ) {b : Bytes} (hb : bootPayload σ = some b)
    (hsaved : τ MARIKO_PAYLOAD_PATH_TEMP = some b) (hoff : Off MARIKO_PAYLOAD_PATH τ τ') :
    Safe σ τ' ∧ τ' MARIKO_PAYLOAD_PATH_TEMP = some b := by
  have htemp := (hoff MARIKO_PAYLOAD_PATH_TEMP (by decide)).trans hsaved
  refine ⟨⟨.inr ⟨b, hb, htemp⟩, fun hnone => ?_,
    fun q hq ht => (hoff q hq).trans (h.others q hq ht)⟩, htemp⟩
  rw [htemp] at hnone
  cases hnone

theorem saveBootPayload_safe (h : Safe σ τ)
    (hsame : τ MARIKO_PAYLOAD_PATH = σ MARIKO_PAYLOAD_PATH) :
    wp card (Safe σ) (fun r τ' => Safe σ τ' ∧ τ' MARIKO_PAYLOAD_PATH = σ MARIKO_PAYLOAD_PATH ∧
      (r = true → ∃ b, bootPayload σ = some b ∧ τ' MARIKO_PAYLOAD_PATH_TEMP = some b))
      saveBootPayload τ := by
  have hupdate : τ UPDATE_BIN_PATH = σ UPDATE_BIN_PATH := h.others _ (by decide) (by decide)
  have hreboot : τ REBOOT_PAYLOAD_PATH = σ REBOOT_PAYLOAD_PATH :=
    h.others _ (by decide) (by decide)
  have hcopy : ∀ source, source ≠ MARIKO_PAYLOAD_PATH_TEMP →
      (∀ b, τ source = some b → bootPayload σ = some b) →
      wp card (Safe σ) (fun r τ' => Safe σ τ' ∧ τ' MARIKO_PAYLOAD_PATH = σ MARIKO_PAYLOAD_PATH ∧
        (r = true → ∃ b, bootPayload σ = some b ∧ τ' MARIKO_PAYLOAD_PATH_TEMP = some b))
        (copyFileVerified source MARIKO_PAYLOAD_PATH_TEMP) τ := by
    intro source hne hboot
    refine wp_copyFileVerified hne (fun τ' hoff => (h.saving hsame hoff).1)
      fun r τ' hoff hcopied => ?_
    obtain ⟨hsafe, hpayload⟩ := h.saving hsame hoff
    refine ⟨hsafe, hpayload, fun hr => ?_⟩
    obtain ⟨b, -, hsource, htemp⟩ := hcopied hr
    exact ⟨b, hboot b hsource, htemp⟩
  have hnone : ∀ {p : FsPath} {r : Bool}, r = (τ p).isSome → ¬ r = true → τ p = none := by
    intro p r hr hnot
    rw [hr] at hnot
    exact Option.not_isSome_iff_eq_none.mp hnot
  rw [saveBootPayload]
  simp only [Prog.bind_eq, Prog.pure_eq]
  refine wp_bind.mpr (wp_fcall h fun r τ₁ hexists => ?_)
  obtain ⟨rfl, hr⟩ := hexists
  refine ⟨h, ?_⟩
  split
  · refine hcopy _ (by decide) fun b hb => ?_
    rw [bootPayload, ← hsame, hb]
    rfl
  rename_i hnot
  have hpayload := hnone hr hnot
  refine wp_bind.mpr (wp_fcall h fun r τ₂ hexists => ?_)
  obtain ⟨rfl, hr⟩ := hexists
  refine ⟨h, ?_⟩
  split
  · refine hcopy _ (by decide) fun b hb => ?_
    rw [bootPayload, ← hsame, ← hupdate, hpayload, hb]
    rfl
  rename_i hnot
  have hbin := hnone hr hnot
  refine wp_bind.mpr (wp_fcall h fun r τ₃ hexists => ?_)
  obtain ⟨rfl, hr⟩ := hexists
  refine ⟨h, ?_⟩
  split
  · refine hcopy _ (by decide) fun b hb => ?_
    rw [bootPayload, ← hsame, ← hupdate, ← hreboot, hpayload, hbin, hb]
    rfl
  · exact ⟨h, h, hsame, fun hr => absurd hr Bool.false_ne_true⟩

theorem putBack_safe (h : Safe σ τ) {b : Bytes} (hb : bootPayload σ = some b)
    (hsaved : τ MARIKO_PAYLOAD_PATH_TEMP = some b) {fault : Outcome}
    (hfault : ∀ τ', (∃ b, bootPayload σ = some b ∧ τ' MARIKO_PAYLOAD_PATH = some b ∧
      τ' MARIKO_PAYLOAD_PATH_TEMP = some b) → Tells σ fault τ') :
    wp card (Safe σ) (Tells σ) (putBack fault) τ := by
  rw [putBack]
  simp only [Prog.bind_eq, Prog.pure_eq]
  refine wp_bind.mpr (wp_copyFileVerified (by decide)
    (fun τ' hoff => (h.replacing hb hsaved hoff).1) fun r τ' hoff hcopied => ?_)
  obtain ⟨hsafe, htemp⟩ := h.replacing hb hsaved hoff
  split
  · rename_i hr
    obtain ⟨c, -, hc, hpayload⟩ := hcopied hr
    obtain rfl := Option.some.inj (hsaved.symm.trans hc)
    exact ⟨hsafe, hfault τ' ⟨b, hb, hpayload, htemp⟩⟩
  · exact ⟨hsafe, trivial⟩

theorem installUpdater_safe (h : Safe σ τ) {b : Bytes} (hb : bootPayload σ = some b)
    (hsaved : τ MARIKO_PAYLOAD_PATH_TEMP = some b) :
    wp card (Safe σ) (Tells σ) installUpdater τ := by
  have hrcm : τ RCM_PAYLOAD_PATH = σ RCM_PAYLOAD_PATH := h.others _ (by decide) (by decide)
  rw [installUpdater]
  simp only [Prog.bind_eq, Prog.pure_eq]
  refine wp_bind.mpr (wp_copyFileVerified (by decide)
    (fun τ' hoff => (h.replacing hb hsaved hoff).1) fun r τ' hoff hcopied => ?_)
  obtain ⟨hsafe, htemp⟩ := h.replacing hb hsaved hoff
  split
  · rename_i hr
    obtain ⟨rcm, hne, hsource, hpayload⟩ := hcopied hr
    refine wp_bind.mpr (wp_fcall hsafe fun r τ'' hshutdown => ?_)
    obtain rfl : τ'' = τ' := hshutdown
    refine ⟨hsafe, ?_⟩
    split
    · exact ⟨hsafe, rcm, b, hne, hrcm ▸ hsource, hpayload, hb, htemp⟩
    · exact putBack_safe hsafe hb htemp fun _ h => h
  · exact putBack_safe hsafe hb htemp fun _ h => h

theorem replaceAndReboot_safe (h : Safe σ τ) :
    wp card (Safe σ) (Tells σ) replaceAndReboot τ := by
  rw [replaceAndReboot]
  simp only [Prog.bind_eq, Prog.pure_eq]
  refine wp_bind.mpr (wp_fcall h fun r τ₁ hexists => ?_)
  obtain ⟨rfl, hr⟩ := hexists
  refine ⟨h, ?_⟩
  split
  · exact ⟨h, trivial⟩
  rename_i hnot
  -- nothing is saved yet, so that the payload is still the one that was there
  rw [hr] at hnot
  have hsame := h.unsaved (Option.not_isSome_iff_eq_none.mp hnot)
  refine wp_bind.mpr (wp_conseq (saveBootPayload_safe h hsame) (fun _ h => h)
    fun r τ' _ hsaving => ?_)
  obtain ⟨hsafe, hpayload, hsaved⟩ := hsaving
  split
  · rename_i hr
    obtain ⟨b, hb, htemp⟩ := hsaved hr
    exact installUpdater_safe hsafe hb htemp
  · exact ⟨hsafe, hpayload⟩

theorem usableFile_safe (h : Safe σ τ) (p : FsPath) {Q : Bool → Card → Prop}
    (hQ : ∀ r, Q r τ) : wp card (Safe σ) Q (usableFile p) τ := by
  rw [usableFile]
  simp only [Prog.bind_eq, Prog.pure_eq]
  refine wp_bind.mpr (wp_fcall h fun r τ₁ hsize => ?_)
  obtain ⟨rfl, -⟩ := hsize
  refine ⟨h, ?_⟩
  rcases r with _ | size
  · exact ⟨h, hQ _⟩
  · exact ⟨h, hQ _⟩

/-- A press keeps the boot payload safe. -/
theorem press_safe (h : Safe σ τ) (rebootRequested : Bool) :
    wp card (Safe σ) (Tells σ) (press rebootRequested) τ := by
  rw [press]
  simp only [Prog.bind_eq, Prog.pure_eq]
  split
  · exact ⟨h, trivial⟩
  refine wp_bind.mpr (wp_fcall h fun r τ₁ hsame => ?_)
  obtain rfl : τ₁ = τ := hsame
  refine ⟨h, ?_⟩
  split
  · exact ⟨h, trivial⟩
  refine wp_bind.mpr (usableFile_safe h _ fun r => ?_)
  split
  · exact ⟨h, trivial⟩
  refine wp_bind.mpr (usableFile_safe h _ fun r => ?_)
  split
  · exact ⟨h, trivial⟩
  refine wp_bind.mpr (usableFile_safe h _ fun r => ?_)
  split
  · exact ⟨h, trivial⟩
  refine wp_bind.mpr (wp_fcall h fun r τ₂ hsame => ?_)
  obtain rfl : τ₂ = τ₁ := hsame
  refine ⟨h, ?_⟩
  rcases r with _ | _ | _
  · exact ⟨h, trivial⟩
  · exact replaceAndReboot_safe h
  · refine wp_bind.mpr (wp_fcall h fun r τ₃ hsame => ?_)
    obtain rfl : τ₃ = τ₂ := hsame
    refine ⟨h, ?_⟩
    split
    · exact ⟨h, trivial⟩
    · exact ⟨h, trivial⟩

theorem presses_safe (h : Presses σ τ) : Safe σ τ := by
  induction h with
  | refl => exact Safe.refl σ
  | tail _ hpress ih =>
    obtain ⟨rebootRequested, hrun⟩ := hpress
    exact wp_cut (press_safe ih rebootRequested) hrun

end page

/-- **The boot payload is never lost.**  However often the button is pressed, whatever calls fail,
whatever a failed write leaves and wherever the power goes in each press: the root payload is what
it was, or what the console booted is saved in full; and a press that ends says truly what stands on
the card, the updater and the saved payload before a reboot, and the saved payload in its old place
after a fault. -/
theorem boot_payload_kept {σ τ : Card} (h : Presses σ τ) (rebootRequested : Bool) :
    wp card (Safe σ) (Tells σ) (press rebootRequested) τ :=
  press_safe (presses_safe h) rebootRequested

/-- A console that cannot be rebooted into a payload, with an update staged. -/
def console : Card := fun p =>
  if p = MARIKO_PAYLOAD_PATH then some [7]
  else if p = RCM_PAYLOAD_PATH then some [9]
  else if p = APP_PAYLOAD_UPDATE_READY_PATH ∨ p = APP_PAYLOAD_UPDATE_STAGED_NRO then some [1]
  else none

/-- The power goes when the file for the saved payload has been made, and the button is pressed
again. -/
theorem boot_payload_kept_cut :
    wp card (Safe console) (Tells console) (press false)
      (Function.update console MARIKO_PAYLOAD_PATH_TEMP (some [])) :=
  boot_payload_kept (.single ⟨false,
    .call (r := true) rfl <| .call (r := some 1) ⟨rfl, .inr rfl⟩ <|
    .call (r := some 1) ⟨rfl, .inr rfl⟩ <| .call (r := some 1) ⟨rfl, .inr rfl⟩ <|
    .call (r := some false) rfl <| .call (r := false) ⟨rfl, rfl⟩ <|
    .call (r := true) ⟨rfl, rfl⟩ <| .call (r := some 1) ⟨rfl, .inr rfl⟩ <|
    .call (r := true) ⟨rfl, fun _ => rfl⟩ <| .call (r := true) (.inl rfl) <| .cut _ _⟩) false

end ConfirmPage
