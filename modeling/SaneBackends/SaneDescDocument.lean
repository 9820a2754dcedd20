import SaneBackends.LastEntry
import SaneBackends.SaneDescParser

/-!
# What the description files say

A keyword belongs to the entity of its kind that was opened last.  A device type opens an entity
without URLs and comments: after it they are again those of the backend.
-/

namespace SaneBackends.SaneDesc

open LastEntry

namespace BackendEntry

def onLastType (f : TypeEntry → TypeEntry) (be : BackendEntry) : BackendEntry :=
  { be with type := onLast f be.type }

def onLastDesc (f : DescEntry → DescEntry) (be : BackendEntry) : BackendEntry :=
  be.onLastType fun type => { type with desc := type.desc.map f }

def onLastMfg (f : MfgEntry → MfgEntry) (be : BackendEntry) : BackendEntry :=
  be.onLastType fun type => { type with mfg := onLast f type.mfg }

def onLastModel (f : ModelEntry → ModelEntry) (be : BackendEntry) : BackendEntry :=
  be.onLastMfg fun mfg => { mfg with model := onLast f mfg.model }

/-- An entity of the level changes. -/
def change (level : Level) (c : Change) (be : BackendEntry) : BackendEntry :=
  match level with
  | .backend => c.backend be
  | .mfg => be.onLastMfg c.mfg
  | .desc => be.onLastDesc c.desc
  | .model => be.onLastModel c.model

end BackendEntry

/-- The backends that came before in the order of the files, the one that is open, and the kind of
    the entity to which URLs and comments belong. -/
structure Document where
  closed : List BackendEntry := []
  current : Option BackendEntry := none
  level : Level := .backend

namespace Document

/-- All backends. -/
def backends (d : Document) : List BackendEntry := d.closed ++ d.current.toList

def set (d : Document) (be : BackendEntry) (level : Level) : Document :=
  { d with current := some be, level := level }

/-- A keyword; nothing if it must not stand there. -/
def exec (d : Document) (k : Keyword) : Option Document :=
  match k, d.current with
  | .backend name, _ => some { closed := d.backends, current := some { name := some name } }
  | _, none => none
  | .version string, some be => some (d.set { be with version := some string } d.level)
  | .status string, some be =>
    if d.level = .model then
      (statusOf string).map fun status =>
        d.set (be.onLastModel fun model => { model with status := status }) .model
    else none
  | .new string, some be => (newOf string).map fun new => d.set { be with new := new } d.level
  | .manpage string, some be => some (d.set { be with manpage := some string } d.level)
  | .devicetype string, some be =>
    (deviceTypeOf string).map fun type =>
      d.set { be with type := be.type ++ [{ type := type }] } .backend
  | .desc string, some be =>
    (last? be.type).bind fun type =>
      if type.2.type.isMeta = true then
        some (d.set (be.onLastType fun type =>
          { type with desc := some { desc := some string } }) .desc)
      else none
  | .mfg string, some be =>
    (last? be.type).bind fun type =>
      if type.2.type.isMeta = true then none
      else
        some (d.set (be.onLastType fun type =>
          { type with mfg := type.mfg ++ [{ name := some string }] }) .mfg)
  | .model string, some be =>
    if d.level = .mfg ∨ d.level = .model then
      some (d.set (be.onLastMfg fun mfg =>
        { mfg with model := mfg.model ++ [{ name := some string }] }) .model)
    else none
  | .interface string, some be =>
    some (d.set (be.onLastModel fun model => { model with interface := some string }) d.level)
  | .scsi vendor product kind, some be =>
    some (d.set (be.onLastModel (ModelEntry.setScsi vendor product kind)) d.level)
  | .usbid vendor product, some be =>
    some (d.set (be.onLastModel (ModelEntry.setUsbid vendor product)) d.level)
  | .url string, some be => some (d.set (be.change d.level (.addUrl string)) d.level)
  | .comment string, some be => some (d.set (be.change d.level (.setComment string)) d.level)

def step (d : Document) : Event → Option Document
  | .file => some { d with closed := d.backends, current := none }
  | .line line =>
    match parseLine line with
    | .ignored => some d
    | .keyword k => d.exec k
    | .unknown => none

end Document

/-- The backends in the order of their names. -/
def sorted (bs : List BackendEntry) : List BackendEntry := bs.foldl insertBackend []

/-- What the files say. -/
def describe (files : List (List CStr)) : Option (List BackendEntry) := do
  let d ← (eventsOf files).foldlM Document.step {}
  if d.backends = [] then none else return sorted d.backends

end SaneBackends.SaneDesc
