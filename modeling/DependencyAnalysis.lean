import DependencyAnalysis.Graph.Basic
import DependencyAnalysis.Graph.Search
import DependencyAnalysis.CircularDeps.Paths
import DependencyAnalysis.CircularDeps.IncludeScan
import DependencyAnalysis.CircularDeps.DirectCycles
import DependencyAnalysis.CircularDeps.TransitiveCycles
import DependencyAnalysis.CircularDeps.TransitiveSound
import DependencyAnalysis.CircularDeps.TransitiveComplete
import DependencyAnalysis.CircularDeps.RecursionLimit
import DependencyAnalysis.CircularDeps.Main
import DependencyAnalysis.CircularDeps.KeyOrder
import DependencyAnalysis.CircularDeps.Output
import DependencyAnalysis.Analyzer.State
import DependencyAnalysis.Analyzer.Analyze
import DependencyAnalysis.Analyzer.DetectCycles
import DependencyAnalysis.Analyzer.DetectCyclesResult
import DependencyAnalysis.Analyzer.Levels
import DependencyAnalysis.Analyzer.Format
import DependencyAnalysis.Analyzer.Report
import DependencyAnalysis.Analyzer.Main
