/-
# Installing a port

`openPort` of `ports_tab.cpp` for an address that is not that of an archive, with `downloadFile` of
`download.cpp`: the bytes that the server sends go through a buffer straight into the file below
`/switch`.  What the server sends and where the user cancels is given, and so is which calls fail.
The progress display and the texts of errors are left out.
-/
import AioMod.Extract
import AioMod.ExplorerFiles
import AioMod.PortUninstall

namespace PortInstall

open Explorer TextLines Extract PortUninstall

/-! ## The name of the file -/

/-- `stripUrlParameters` -/
def stripUrlParameters (url : Bytes) : Bytes := url.takeWhile fun c => c ≠ 63 ∧ c ≠ 35

/-- `std::isalnum` in the C locale -/
def isalnum (c : UInt8) : Bool := 48 ≤ c ∧ c ≤ 57 ∨ 65 ≤ c ∧ c ≤ 90 ∨ 97 ≤ c ∧ c ≤ 122

/-- `sanitizeFilename` -/
def sanitizeFilename (value : Bytes) : Bytes :=
  (value.map fun c => if isalnum c ∨ c = 46 ∨ c = 45 ∨ c = 95 then c else 95).dropWhile (· = 46)

/-- `filenameFromUrl` -/
def filenameFromUrl (url fallback : Bytes) : Bytes :=
  let filename := sanitizeFilename (Nsp.filename (stripUrlParameters url))
  if filename = [] then fallback else filename

/-- The file that a port is written to. -/
def destination (label url : Bytes) : FsPath :=
  SwitchFolder ++ [name (filenameFromUrl url (sanitizeFilename label ++ ascii ".nro"))]

/-! ## `downloadFile` -/

def _1MiB : ℕ := 0x100000

/-- One call of `WriteMemoryCallback`. -/
structure Callback where
  interrupted : Bool
  contents : Bytes

/-- What comes from outside during a download. -/
structure Download where
  /-- `curl_easy_init` -/
  init : Bool
  /-- `mega_url`, which may throw -/
  mega_url : Option Bytes
  /-- `mega_node_key`, which may throw: the stream that the bytes are enciphered with -/
  mega_node_key : Option (ℕ → UInt8)
  checkSize : Bool
  /-- the user has cancelled before the file is opened -/
  interrupted : Bool
  /-- `fopen` -/
  opens : Bool
  /-- what curl hands over -/
  callbacks : List Callback
  /-- curl comes to its end unless a callback stops it -/
  complete : Bool
  /-- the status that the server sends -/
  status : ℕ
  /-- the number of bytes that a write comes to which fails -/
  fwrite : ℕ → Option ℕ
  /-- `fclose` -/
  closes : Bool
  /-- the user has cancelled before the end -/
  interruptedAfter : Bool

/-- `ntwrk_struct_t`: the buffer, what is written to the file, and the number of writes and of bytes
that are received. -/
structure Chunk where
  data : Bytes := []
  out : Bytes := []
  writes : ℕ := 0
  received : ℕ := 0
  write_failed : Bool := false

namespace Download

/-- Whether an address is one of a share that has to be deciphered. -/
def isMega (url : Bytes) : Bool := ascii "mega.nz" <:+: url

/-- The stream that is laid over the bytes. -/
def key (d : Download) (url : Bytes) (i : ℕ) : UInt8 :=
  if isMega url then (d.mega_node_key.getD fun _ => 0) i else 0

/-- `fwrite` of the buffer. -/
def flush (d : Download) (c : Chunk) : Chunk :=
  match d.fwrite c.writes with
  | none => { c with out := c.out ++ c.data, data := [], writes := c.writes + 1 }
  | some n => { c with out := c.out ++ c.data.take n, write_failed := true }

/-- The loop of `WriteMemoryCallback`: the buffer is written when it is full. -/
def receive (d : Download) (url : Bytes) : Bytes → Chunk → Chunk
  | [], c => c
  | b :: input, c =>
    let c := { c with data := c.data ++ [b ^^^ d.key url c.received], received := c.received + 1 }
    if c.data.length = _1MiB then
      let c := d.flush c
      if c.write_failed then c else d.receive url input c
    else d.receive url input c

/-- `curl_easy_perform`: the chunk, and whether the transfer came to its end. -/
def perform (d : Download) (url : Bytes) : List Callback → Chunk → Chunk × Bool
  | [], c => (c, d.complete)
  | callback :: callbacks, c =>
    if callback.interrupted then (c, false)
    else
      let c := d.receive url callback.contents c
      if c.write_failed then (c, false) else d.perform url callbacks c

/-- Whether a status says success. -/
def success (status : ℕ) : Prop := 200 ≤ status ∧ status < 300

instance (status : ℕ) : Decidable (success status) := inferInstanceAs (Decidable (_ ∧ _))

/-- The last write, before the file is closed. -/
def finish (d : Download) (c : Chunk) (ok : Bool) : Chunk :=
  if ok ∧ success d.status ∧ c.data ≠ [] then d.flush c else c

/-- What `downloadFile` returns once the file is closed. -/
def result (d : Download) (c : Chunk) (ok : Bool) : ℕ :=
  if d.interruptedAfter then 0
  else if c.write_failed ∨ d.closes = false then 0
  else if ok = false then 0
  else if success d.status then d.status else 0

/-- The way to the opening of the file. -/
def ready (d : Download) (url : Bytes) : Bool :=
  d.init &&
    match if isMega url then d.mega_url else some url with
    | none => false
    | some realUrl =>
      realUrl ≠ [] && (isMega url || d.checkSize) && !d.interrupted &&
        (!isMega url || d.mega_node_key.isSome)

/-- `downloadFile` into a file: the status it returns, and the card. -/
def downloadFile {fold : Name → Name} (d : Download) (url : Bytes) (output : FsPath)
    (v : Volume fold) : ℕ × Volume fold :=
  if d.ready url then
    match if d.opens then v.setFile output [] else none with
    | none => (0, v)
    | some v =>
      let (c, ok) := d.perform url d.callbacks {}
      let c := d.finish c ok
      (d.result c ok, (v.setFile output c.out).getD v)
  else (0, v)

end Download

/-- The download step of `openPort`. -/
def install {fold : Name → Name} (label url : Bytes) (d : Download) (v : Volume fold) :
    ℕ × Volume fold :=
  let (created, v) := v.mkdirs (prefixes SwitchFolder)
  if created then d.downloadFile url (destination label url) v else (0, v)

end PortInstall
