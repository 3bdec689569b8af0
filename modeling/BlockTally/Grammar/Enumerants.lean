import BlockTally.Grammar.Enumeration

/-! The enumerations of the instruction set: the names of operand values.

The numbers that the library itself writes are named constants beside their enumeration.
-/

set_option autoImplicit false

namespace BlockTally

namespace StorageClass

def function : Int := 7

def storageBuffer : Int := 12

def table : Enumeration where
  title := "StorageClass"
  members :=
    [("UniformConstant", 0), ("Input", 1), ("Uniform", 2), ("Output", 3), ("Workgroup", 4),
     ("CrossWorkgroup", 5), ("Private", 6), ("Function", 7), ("Generic", 8), ("PushConstant", 9),
     ("AtomicCounter", 10), ("Image", 11), ("StorageBuffer", 12)]

end StorageClass

namespace Decoration

def block : Int := 2

def arrayStride : Int := 6

def binding : Int := 33

def descriptorSet : Int := 34

def offset : Int := 35

def table : Enumeration where
  title := "Decoration"
  members :=
    [("RelaxedPrecision", 0), ("SpecId", 1), ("Block", 2), ("BufferBlock", 3), ("RowMajor", 4),
     ("ColMajor", 5), ("ArrayStride", 6), ("MatrixStride", 7), ("BuiltIn", 11), ("NonWritable", 24),
     ("NonReadable", 25), ("Location", 30), ("Binding", 33), ("DescriptorSet", 34), ("Offset", 35)]

end Decoration

namespace Capability

def int64 : Int := 11

def int64Atomics : Int := 12

def table : Enumeration where
  title := "Capability"
  members :=
    [("Matrix", 0), ("Shader", 1), ("Geometry", 2), ("Tessellation", 3), ("Addresses", 4), ("Linkage", 5),
     ("Kernel", 6), ("Float16", 9), ("Float64", 10), ("Int64", 11), ("Int64Atomics", 12), ("Int16", 22),
     ("Int8", 39)]

end Capability

namespace ExecutionModel

def table : Enumeration where
  title := "ExecutionModel"
  members :=
    [("Vertex", 0), ("TessellationControl", 1), ("TessellationEvaluation", 2), ("Geometry", 3),
     ("Fragment", 4), ("GLCompute", 5), ("Kernel", 6)]

end ExecutionModel

namespace ExecutionMode

def table : Enumeration where
  title := "ExecutionMode"
  members :=
    [("OriginUpperLeft", 7), ("OriginLowerLeft", 8), ("LocalSize", 17)]

end ExecutionMode

namespace AddressingModel

def logical : Int := 0

def table : Enumeration where
  title := "AddressingModel"
  members :=
    [("Logical", 0), ("Physical32", 1), ("Physical64", 2)]

end AddressingModel

namespace MemoryModel

def glsl450 : Int := 1

def table : Enumeration where
  title := "MemoryModel"
  members :=
    [("Simple", 0), ("GLSL450", 1), ("OpenCL", 2), ("Vulkan", 3)]

end MemoryModel

namespace FunctionControl

def none : Int := 0

def table : Enumeration where
  title := "FunctionControl"
  members :=
    [("NONE", 0), ("Inline", 1), ("DontInline", 2), ("Pure", 4), ("Const", 8)]

end FunctionControl

namespace SelectionControl

def none : Int := 0

def table : Enumeration where
  title := "SelectionControl"
  members :=
    [("NONE", 0), ("Flatten", 1), ("DontFlatten", 2)]

end SelectionControl

namespace LoopControl

def table : Enumeration where
  title := "LoopControl"
  members :=
    [("NONE", 0), ("Unroll", 1), ("DontUnroll", 2)]

end LoopControl

namespace Scope

def device : Int := 1

def table : Enumeration where
  title := "Scope"
  members :=
    [("CrossDevice", 0), ("Device", 1), ("Workgroup", 2), ("Subgroup", 3), ("Invocation", 4)]

end Scope

namespace MemorySemantics

def relaxed : Int := 0

def table : Enumeration where
  title := "MemorySemantics"
  members :=
    [("Relaxed", 0), ("Acquire", 2), ("Release", 4), ("AcquireRelease", 8), ("UniformMemory", 64)]

end MemorySemantics

end BlockTally
