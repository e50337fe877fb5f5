import Gerber.Text

/-!
# Locations

The folders that a path can pass, and what every system has at fixed paths: some folders, a few
files, the devices behind which a program finds its standard streams, and links to them.
-/

namespace Gerber

/-- What takes the texts that are written to it. -/
inductive Device where
  /-- Keeps nothing. -/
  | null
  /-- Has no room. -/
  | full
  /-- The standard output. -/
  | output
  /-- The terminal of a program that has none. -/
  | terminal
deriving DecidableEq

/-- The folders that a path can pass. -/
inductive Location where
  /-- The folder in which a command is given. -/
  | here
  /-- The folder with the given names from the top of the system. -/
  | fixed (names : List Text)
deriving DecidableEq

/-- What is found under a name. -/
inductive Entry where
  | folder (location : Location)
  | file (bytes : List UInt8)
  | device (device : Device)
  | nothing
deriving DecidableEq

namespace Location

def namesOf (path : String) : List Text := path.toList.splitOn '/'

/-- The folder that `..` leads to.  Commands are given in a folder for temporary files. -/
def parent : Location → Location
  | here => fixed (namesOf "tmp")
  | fixed names => fixed names.dropLast

/-- Whether a folder shows the state of the system.  Its names have no limit, and no file can be
added to it. -/
def isView : Location → Bool
  | fixed (name :: _) => name == "proc".toList || name == "sys".toList
  | _ => false

/-- The folders of every system, apart from its top. -/
def folders : List (List Text) :=
  ["boot", "dev", "dev/pts", "dev/shm", "etc", "home", "media", "mnt", "opt", "proc", "proc/bus",
    "proc/driver", "proc/fs", "proc/irq", "proc/self/fdinfo", "proc/self/net", "proc/self/ns",
    "proc/self/task", "proc/sys", "proc/tty", "root", "run", "run/lock", "srv", "sys", "tmp", "usr",
    "usr/bin", "usr/include", "usr/lib", "usr/lib64", "usr/local", "usr/local/bin",
    "usr/local/lib", "usr/sbin", "usr/share", "usr/src", "var", "var/cache", "var/lib", "var/local",
    "var/log", "var/mail", "var/opt", "var/spool", "var/tmp"].map namesOf

/-- The files of every system.  What they hold is not known and taken as nothing. -/
def files : List (List Text) :=
  ["etc/group", "etc/hostname", "etc/hosts", "etc/passwd", "proc/cpuinfo", "proc/loadavg",
    "proc/meminfo", "proc/self/cmdline", "proc/self/environ", "proc/self/maps", "proc/self/stat",
    "proc/self/status", "proc/stat", "proc/uptime", "proc/version"].map namesOf

/-- The devices and links of every system.  A link stands with what it leads to in the end and with
the number of links passed on the way.  The standard input is empty, and what is written to the
standard error is not kept. -/
def specials : List (List Text × Nat × Entry) :=
  [("bin", 1, Entry.folder (fixed (namesOf "usr/bin"))),
    ("lib", 1, .folder (fixed (namesOf "usr/lib"))),
    ("lib64", 1, .folder (fixed (namesOf "usr/lib64"))),
    ("sbin", 1, .folder (fixed (namesOf "usr/sbin"))),
    ("var/lock", 1, .folder (fixed (namesOf "run/lock"))),
    ("var/run", 1, .folder (fixed (namesOf "run"))),
    ("dev/null", 0, .device .null),
    ("dev/zero", 0, .device .null),
    ("dev/full", 0, .device .full),
    ("dev/tty", 0, .device .terminal),
    ("dev/fd", 2, .folder (fixed (namesOf "proc/self/fd"))),
    ("dev/stdin", 3, .device .null),
    ("dev/stdout", 3, .device .output),
    ("dev/stderr", 3, .device .null),
    ("proc/self", 1, .folder (fixed (namesOf "proc/self"))),
    ("proc/self/cwd", 1, .folder here),
    ("proc/self/root", 1, .folder (fixed [])),
    ("proc/self/fd", 0, .folder (fixed (namesOf "proc/self/fd"))),
    ("proc/self/fd/0", 1, .device .null),
    ("proc/self/fd/1", 1, .device .output),
    ("proc/self/fd/2", 1, .device .null)].map fun special => (namesOf special.1, special.2)

/-- What every system has under the given names from its top, and the number of links passed on the
way from the last name to it. -/
def fixedEntry (names : List Text) : Nat × Entry :=
  if names ∈ folders then (0, .folder (fixed names))
  else if names ∈ files then (0, .file [])
  else (specials.lookup names).getD (0, .nothing)

end Location

end Gerber
