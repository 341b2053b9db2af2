import KernelCore.Config.Assignments
import KernelCore.Config.Toml.Document
import KernelCore.Parameters
import KernelCore.Text.Escaped
import KernelCore.Text.Numeral

/-!
# Generated constants

The constants of a kernel are generated from its configuration as program text. The configuration
is either a file of assignments or a TOML document, told apart by their looks; what it does not
say has the value that the kernel core has by default. What reads TOML is a parameter: of a document
only the settings count.
-/
namespace KernelCore.Config

open KernelCore.Text

/-- What a configuration may not say. -/
inductive ConfigError where
  | notToml
  | pageSize
  | sectorSize
  deriving DecidableEq, Repr

def ConfigError.message : ConfigError → String
  | .notToml => "Kernel.toml 解析失败"
  | .pageSize => "memory.page_size 必须是 2 的幂"
  | .sectorSize => "swap.sector_size 必须整除 page_size"

structure Constants where
  name : String
  version : String
  timerFrequency : Int
  timeSlice : Int
  maxThreads : Int
  feedback : Bool
  commandLine : String
  pageSize : Int
  userStackTop : Int
  stackLimit : Int
  kernelBase : Int
  sectorSize : Int
  deriving DecidableEq, Repr

/-- Whether a line has the looks of one that opens a table. -/
def opensTable (line : List Char) : Bool :=
  let cs := trim line
  cs.head? = some '[' && cs.getLast? = some ']'

/-- Whether a configuration is to be read as TOML. -/
def isToml (text : List Char) : Bool := trim text = [] || (lines text).any opensTable

/-- What reads TOML: the settings of a document, if the text is one. -/
abbrev DocumentReader := List Char → Option Settings

/-- The settings of a configuration. -/
def readSettings (reader : DocumentReader) (text : String) : Except ConfigError Settings :=
  if isToml text.toList then
    match reader text.toList with
    | some s => .ok s
    | none => .error .notToml
  else .ok (readAssignments text.toList)

def isPowerOfTwo (n : Int) : Bool := 0 < n && n.toNat &&& (n.toNat - 1) = 0

/-- A constant in program text. -/
structure Declaration where
  comment : String
  name : String
  type : String
  value : String
  deriving DecidableEq, Repr

def Declaration.source (d : Declaration) : String :=
  "/// " ++ d.comment ++ "\npub const " ++ d.name ++ ": " ++ d.type ++ " = " ++ d.value ++ ";\n"

namespace Constants

/-- The constants a configuration asks for. -/
def ofSettings (s : Settings) : Constants :=
  { name := s.string "general" "name" kernelName
    version := s.string "general" "version" kernelVersion
    timerFrequency := s.integer "scheduler" "timer_freq" KernelCore.timerFrequency
    timeSlice := s.integer "scheduler" "time_slice_ticks" KernelCore.timeSlice
    maxThreads := s.integer "scheduler" "max_threads" KernelCore.maxThreads
    feedback := s.boolean "scheduler" "mlfqs" feedbackByDefault
    commandLine := s.string "scheduler" "default_cmdline" defaultCommandLine
    pageSize := s.integer "memory" "page_size" KernelCore.pageSize
    userStackTop := s.integer "memory" "user_stack_top" KernelCore.userStackTop
    stackLimit := s.integer "memory" "stack_limit" KernelCore.stackLimit
    kernelBase := s.integer "memory" "kernel_base" KernelCore.kernelBase
    sectorSize := s.integer "swap" "sector_size" KernelCore.sectorSize }

/-- A page is a power of two, and sectors divide it. -/
def check (c : Constants) : Except ConfigError Unit :=
  if isPowerOfTwo c.pageSize = false then .error .pageSize
  else if c.sectorSize ≤ 0 ∨ c.pageSize % c.sectorSize ≠ 0 then .error .sectorSize
  else .ok ()

/-- The exponent of a page size that is a power of two. -/
def pageShift (c : Constants) : Nat := c.pageSize.toNat.log2

/-- A number in hexadecimal; a negative one as the word it is stored in. -/
def hexWord (n : Int) : String := hex (n % addressLimit).toNat

/-- A text between quotes. -/
def quoted (s : String) : String := "\"" ++ s ++ "\""

/-- The constants as they are declared. -/
def declarations (c : Constants) : List Declaration :=
  [⟨"内核名称", "KERNEL_NAME", "&str", quoted c.name⟩,
    ⟨"内核版本", "KERNEL_VERSION", "&str", quoted c.version⟩,
    ⟨"定时器中断频率 (Hz)", "TIMER_FREQ", "u64", toString c.timerFrequency⟩,
    ⟨"时间片滴答数", "TIME_SLICE", "u32", toString c.timeSlice⟩,
    ⟨"线程控制块池大小", "MAX_THREADS", "usize", toString c.maxThreads⟩,
    ⟨"默认是否启用 MLFQS", "MLFQS", "bool", toString c.feedback⟩,
    ⟨"默认内核命令行", "DEFAULT_CMDLINE", "&str", quoted (String.ofList (escape c.commandLine.toList))⟩,
    ⟨"页大小", "PAGE_SIZE", "usize", toString c.pageSize⟩,
    ⟨"页大小位移", "PAGE_SHIFT", "usize", toString c.pageShift⟩,
    ⟨"用户栈顶地址", "USER_STACK_TOP", "usize", hexWord c.userStackTop⟩,
    ⟨"栈增长上限（字节）", "STACK_LIMIT", "usize", toString c.stackLimit⟩,
    ⟨"内核地址空间起点", "KERNEL_BASE", "usize", hexWord c.kernelBase⟩,
    ⟨"交换设备扇区大小", "SECTOR_SIZE", "usize", toString c.sectorSize⟩]

/-- The comment the program text starts with. -/
def preamble : String :=
  "// Rux 执行核心配置（自动生成）\n//\n" ++
    "// 此文件由 build.rs 根据 Kernel.toml 自动生成，请勿手动修改\n\n"

/-- The program text that declares the constants. -/
def source (c : Constants) : String :=
  preamble ++ "\n".intercalate (c.declarations.map Declaration.source)

/-- What the generator tells the build: the files it read, and the kernel's identity. -/
def directives (c : Constants) : String :=
  "cargo:rerun-if-changed=../Kernel.toml\n" ++ "cargo:rerun-if-changed=../build/.config\n" ++
    "cargo:rustc-env=CARGO_KERNEL_NAME=" ++ c.name ++ "\n" ++
    "cargo:rustc-env=CARGO_KERNEL_VERSION=" ++ c.version ++ "\n"

end Constants

/-- The lines the generator prints and the program text it writes. -/
structure Generated where
  printed : List String
  source : String
  deriving DecidableEq, Repr

/-- Generate the constants. A file of assignments, if there is one, goes before a document. -/
def generateWith (reader : DocumentReader) (assignments document : Option String) :
    Except ConfigError Generated := do
  let settings ← readSettings reader ((assignments.or document).getD "")
  let c := Constants.ofSettings settings
  c.check
  pure ⟨(lines c.directives.toList).map String.ofList, c.source⟩

/-- Generate the constants from what this library reads of TOML. -/
def generate (assignments document : Option String) : Except ConfigError Generated :=
  generateWith Toml.read assignments document

end KernelCore.Config
