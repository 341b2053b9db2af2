/-!
# Parameters

The constants the kernel core is built with: the identity it announces, the timer and the
thread table, the priority range, and the layout of user memory. Memory sizes are in bytes,
times in timer ticks.
-/
namespace KernelCore

/-- Name announced at boot. -/
def kernelName : String := "Rux"

/-- Version announced at boot. -/
def kernelVersion : String := "0.1.0"

/-- Timer interrupts per second. -/
def timerFrequency : Nat := 100

/-- Ticks a thread runs before it has to let its equals run. -/
def timeSlice : Nat := 4

/-- Ticks between two recomputations of the feedback priorities. -/
def priorityPeriod : Nat := 4

/-- Control blocks of the thread table, the first thread and the idle thread included. -/
def maxThreads : Nat := 64

/-- Whether feedback scheduling is used when the command line does not say. -/
def feedbackByDefault : Bool := false

/-- The command line of a boot that was given none. -/
def defaultCommandLine : String := ""

def minPriority : Int := 0
def defaultPriority : Int := 31
def maxPriority : Int := 63

def minNice : Int := -20
def maxNice : Int := 20

/-- Links of a wait chain that a donated priority travels along. -/
def donationDepth : Nat := 8

def pageSize : Nat := 4096

/-- The page size is two to this power. -/
def pageShift : Nat := 12

/-- One past the highest address of the user stack. -/
def userStackTop : Nat := 0x47478000

/-- Bytes the user stack may grow to. -/
def stackLimit : Nat := 1048576

/-- The lowest address that belongs to the kernel. -/
def kernelBase : Nat := 0x800400000000

def sectorSize : Nat := 512

/-- Sectors that hold one page on the swap device. -/
def sectorsPerSlot : Nat := pageSize / sectorSize

/-- Addresses and sizes are below this bound. -/
def addressLimit : Nat := 1 <<< 64

theorem one_shiftLeft_pageShift : 1 <<< pageShift = pageSize := by decide

theorem sectorsPerSlot_mul_sectorSize : sectorsPerSlot * sectorSize = pageSize := by decide

end KernelCore
